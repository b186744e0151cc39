import Sitewright.Text.Numeral
/-!
# Integers in text

An integer is written with digits of any script, single bars (`_`) allowed between digits, an optional
sign directly before them and blanks around the whole. It is decimal unless another base is asked for;
then letters are digits too, and the mark of the base may stand before the digits. Reading refuses more
decimal digits than `digitLimit`, so that its cost stays bounded.

Main statement: a digit is less than its base (`digitIn?_lt`).
-/
set_option autoImplicit false

namespace Sitewright.Integer

/-- Why a text is no integer. -/
inductive Problem where
  /-- The text is not of the form of an integer. -/
  | malformed
  /-- The text has more digits than are read. -/
  | tooLong (digits : Nat)
deriving DecidableEq, Repr

def digitLimit : Nat := 4300

/-- The blanks that may surround an integer: the six of ASCII and every blank beyond ASCII. -/
def isEdgeBlank (c : Char) : Bool :=
  if c.toNat < 128 then c = ' ' || (9 ≤ c.toNat && c.toNat ≤ 13) else Text.isBlank c

/-- The value of a digit of a base; from ten on these are the letters of ASCII. -/
def digitIn? (base : Nat) (c : Char) : Option Nat :=
  let value? :=
    match Text.digit? c with
    | some d => some d
    | none =>
      if 'a' ≤ c && c ≤ 'z' then some (c.toNat - 87)
      else if 'A' ≤ c && c ≤ 'Z' then some (c.toNat - 55)
      else none
  value?.filter fun d => decide (d < base)

theorem digitIn?_lt {base : Nat} {c : Char} {d : Nat} (h : digitIn? base c = some d) : d < base := by
  simpa using (Option.filter_eq_some_iff.1 h).2

/-- A run of digits: its value, how many digits it has, and the text after it. -/
structure Run where
  value : Nat
  count : Nat
  rest : Text
deriving Repr

/-- Reads digits with single bars between them; no run where a bar follows a bar or ends it. -/
def run? (base value count : Nat) (afterBar : Bool) : Text → Option Run
  | [] => if afterBar then none else some ⟨value, count, []⟩
  | c :: s =>
    match digitIn? base c with
    | some d => run? base (base * value + d) (count + 1) false s
    | none =>
      if afterBar then none
      else if c = '_' then run? base value count true s
      else some ⟨value, count, c :: s⟩

/-- The text behind the mark of a base, and behind a bar that parts the mark from the digits. -/
def dropMark (base : Nat) (s : Text) : Text :=
  match s with
  | '0' :: c :: rest =>
    if List.elem (base, c) [(2, 'b'), (2, 'B'), (8, 'o'), (8, 'O'), (16, 'x'), (16, 'X')] then
      if rest.head? = some '_' then rest.tail else rest
    else s
  | _ => s

theorem dropMark_ten (s : Text) : dropMark 10 s = s := by
  unfold dropMark
  split
  · rw [if_neg]
    simp
  · rfl

/-- Reads the digits and what follows them, after blanks and sign. -/
def readMagnitude (base : Nat) (s : Text) : Except Problem Nat :=
  let s := dropMark base s
  if s.head? = some '_' then .error .malformed
  else match run? base 0 0 false s with
    | none => .error .malformed
    | some run =>
      if base = 10 && run.count > digitLimit then .error (.tooLong run.count)
      else if run.count = 0 || !run.rest.all isEdgeBlank then .error .malformed
      else .ok run.value

def readIn (base : Nat) (s : Text) : Except Problem Int :=
  match s.dropWhile isEdgeBlank with
  | '-' :: body => (readMagnitude base body).map fun n => -(n : Int)
  | '+' :: body => (readMagnitude base body).map fun n => (n : Int)
  | body => (readMagnitude base body).map fun n => (n : Int)

def read (s : Text) : Except Problem Int := readIn 10 s

/-! ## Writing -/

def ofNat (n : Nat) : Text := Nat.toDigits 10 n

/-- An integer in decimal, with a minus sign where it is negative. -/
def ofInt : Int → Text
  | .ofNat n => ofNat n
  | .negSucc n => '-' :: ofNat (n + 1)

/-- A natural number in lower-case hexadecimal, with zeros in front up to `width`. -/
def hex (width n : Nat) : Text :=
  let digits := Nat.toDigits 16 n
  List.replicate (width - digits.length) '0' ++ digits

/-- A natural number in decimal, with zeros in front up to `width`. -/
def padded (width n : Nat) : Text :=
  let digits := ofNat n
  List.replicate (width - digits.length) '0' ++ digits

/-- The message for a text that is no integer of a base; the text is given in quotes. -/
def malformedMessage (base : Nat) (shown : Text) : Text :=
  "invalid literal for int() with base ".toList ++ ofNat base ++ ": ".toList ++ shown

def Problem.message (shown : Text) : Problem → Text
  | .malformed => malformedMessage 10 shown
  | .tooLong n =>
    "Exceeds the limit (4300 digits) for integer string conversion: value has ".toList ++ ofNat n ++
      " digits; use sys.set_int_max_str_digits() to increase the limit".toList

end Sitewright.Integer
