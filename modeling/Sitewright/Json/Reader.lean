import Sitewright.Json.Value
import Sitewright.Number.Numeral
/-!
# Reading values

A document is one value with blanks around it. Of several members with one name the last value
counts, at the place of the first. A number with a point or an exponent is a double, any other a
whole number; `NaN` and `Infinity` are read too. Strings hold no raw control character.
-/
set_option autoImplicit false

namespace Sitewright.Json

open Numeral (isDigit ofDigits readExponent?)

/-- Why a text is no document. -/
inductive Problem where
  /-- The text does not have the form of a document. -/
  | malformed
  /-- A whole number has more digits than are read. -/
  | tooLong (digits : Nat)
deriving DecidableEq, Repr

def isBlank (c : Char) : Bool := c = ' ' || c = '\t' || c = '\n' || c = '\r'

def skipBlanks (s : Text) : Text := s.dropWhile isBlank

/-! ## Strings -/

def readUnit? : Text → Option (Nat × Text)
  | a :: b :: c :: d :: rest => do
    let a ← Text.hexDigit? a
    let b ← Text.hexDigit? b
    let c ← Text.hexDigit? c
    let d ← Text.hexDigit? d
    return (((a * 16 + b) * 16 + c) * 16 + d, rest)
  | _ => none

/-- The character of a unit that stands alone; half a pair stands for no character. -/
def charOfUnit (n : Nat) : Char :=
  if 0xD800 ≤ n && n < 0xE000 then '\ufffd' else Char.ofNat n

/-- Reads what follows `\u`: a unit, or the two units of a pair. -/
def readCode? (s : Text) : Option (Char × Text) := do
  let (n, rest) ← readUnit? s
  if 0xD800 ≤ n && n < 0xDC00 then
    match rest with
    | '\\' :: 'u' :: more =>
      let (low, after) ← readUnit? more
      if 0xDC00 ≤ low && low < 0xE000 then
        return (Char.ofNat (0x10000 + (n - 0xD800) * 0x400 + (low - 0xDC00)), after)
      else return (charOfUnit n, rest)
    | _ => return (charOfUnit n, rest)
  else return (charOfUnit n, rest)

def shortEscape? (c : Char) : Option Char :=
  if c = '"' || c = '\\' || c = '/' then some c
  else if c = 'n' then some '\n'
  else if c = 'r' then some '\r'
  else if c = 't' then some '\t'
  else if c = 'b' then some '\x08'
  else if c = 'f' then some '\x0c'
  else none

/-- Reads the rest of a string behind its opening quote; `out` is what has been read, in reverse. The
limit is met only where it is less than the number of characters. -/
def readString (out : Text) : Nat → Text → Except Problem (Text × Text)
  | 0, _ => .error .malformed
  | _ + 1, [] => .error .malformed
  | fuel + 1, c :: s =>
    if c = '"' then .ok (out.reverse, s)
    else if c = '\\' then
      match s with
      | [] => .error .malformed
      | e :: rest =>
        if e = 'u' then
          match readCode? rest with
          | some (c, after) => readString (c :: out) fuel after
          | none => .error .malformed
        else
          match shortEscape? e with
          | some c => readString (c :: out) fuel rest
          | none => .error .malformed
    else if c.toNat < 0x20 then .error .malformed
    else readString (c :: out) fuel s

/-! ## Numbers -/

/-- The digits after a point, and what follows; none where no digit follows the point. -/
def readFraction? : Text → Option (Text × Text)
  | '.' :: s =>
    let digits := s.takeWhile isDigit
    if digits.isEmpty then none else some (digits, s.dropWhile isDigit)
  | _ => none

def readMagnitude (negative : Bool) (s : Text) : Except Problem (Value × Text) :=
  let whole := match s with
    | '0' :: _ => ['0']
    | _ => s.takeWhile isDigit
  if whole.isEmpty then .error .malformed
  else
    let rest := s.drop whole.length
    let fraction := readFraction? rest
    let afterFraction := (fraction.map Prod.snd).getD rest
    let exponent := readExponent? afterFraction
    if fraction.isNone && exponent.isNone then
      if whole.length > Integer.digitLimit then .error (.tooLong whole.length)
      else
        let n := ofDigits whole
        .ok (.int (if negative then -(n : Int) else n), rest)
    else
      let decimals := (fraction.map Prod.fst).getD []
      let digits := (whole ++ decimals).dropWhile (· = '0')
      let power := (exponent.map Prod.fst).getD 0 - decimals.length
      .ok (.real (Double.ofDecimal negative (ofDigits digits) digits.length power),
        (exponent.map Prod.snd).getD afterFraction)

def words : List (Text × Value) :=
  [("null".toList, .null), ("true".toList, .bool true), ("false".toList, .bool false),
    ("NaN".toList, .real Double.nan), ("Infinity".toList, .real (Double.infinity false)),
    ("-Infinity".toList, .real (Double.infinity true))]

def readPlain (s : Text) : Except Problem (Value × Text) :=
  match words.findSome? fun w => (Text.after? w.1 s).map fun rest => (w.2, rest) with
  | some found => .ok found
  | none =>
    match s with
    | '-' :: body => readMagnitude true body
    | _ => readMagnitude false s

/-! ## Values -/

mutual

/-- Reads a value at the front of a text. Every second step takes a character, so a limit above twice
the length of the text is never met. -/
def readValue : Nat → Text → Except Problem (Value × Text)
  | 0, _ => .error .malformed
  | fuel + 1, s =>
    match s with
    | '"' :: rest => do
      let (text, after) ← readString [] fuel rest
      return (.string text, after)
    | '[' :: rest =>
      match skipBlanks rest with
      | ']' :: after => .ok (.array [], after)
      | items => readItems fuel [] items
    | '\x7b' :: rest =>
      match skipBlanks rest with
      | '\x7d' :: after => .ok (.object [], after)
      | members => readMembers fuel [] members
    | _ => readPlain s

/-- Reads the items of an array up to its end; `found` holds those before them, in reverse. -/
def readItems : Nat → List Value → Text → Except Problem (Value × Text)
  | 0, _, _ => .error .malformed
  | fuel + 1, found, s =>
    match readValue fuel s with
    | .error e => .error e
    | .ok (v, rest) =>
      match skipBlanks rest with
      | ']' :: after => .ok (.array (v :: found).reverse, after)
      | ',' :: more => readItems fuel (v :: found) (skipBlanks more)
      | _ => .error .malformed

/-- Reads the members of an object up to its end; `found` holds those before them. -/
def readMembers : Nat → Members → Text → Except Problem (Value × Text)
  | 0, _, _ => .error .malformed
  | fuel + 1, found, s =>
    match s with
    | '"' :: rest =>
      match readString [] fuel rest with
      | .error e => .error e
      | .ok (name, after) =>
        match skipBlanks after with
        | ':' :: more =>
          match readValue fuel (skipBlanks more) with
          | .error e => .error e
          | .ok (v, rest) =>
            let found := Keyed.put name v found
            match skipBlanks rest with
            | '\x7d' :: after => .ok (.object found, after)
            | ',' :: more => readMembers fuel found (skipBlanks more)
            | _ => .error .malformed
        | _ => .error .malformed
    | _ => .error .malformed

end

def read (s : Text) : Except Problem Value := do
  let (value, rest) ← readValue (2 * s.length + 2) (skipBlanks s)
  if (skipBlanks rest).isEmpty then return value else .error .malformed

def Problem.message : Problem → Text
  | .malformed => "not a JSON document".toList
  | .tooLong n => (Integer.Problem.tooLong n).message []

end Sitewright.Json
