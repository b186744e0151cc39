import Sitewright.Keyed
import Sitewright.Text.Integer
/-!
# Calculations of a shell

A calculation is made of whole numbers, variables, brackets and operators. A variable that is not set
counts as zero; comparisons and conditions give one or zero.
-/
set_option autoImplicit false

namespace Sitewright.Shell.Calculation

/-- Why a calculation has no value. -/
inductive Problem where
  | malformed
  | divisionByZero
deriving DecidableEq, Repr

/-- The operators with two operands by how closely they bind, longer ones before their fronts. -/
def operators : List (Text × Nat) :=
  [("||".toList, 1), ("&&".toList, 2), ("==".toList, 6), ("!=".toList, 6), ("<=".toList, 7),
    (">=".toList, 7), ("<<".toList, 8), (">>".toList, 8), ("<".toList, 7), (">".toList, 7),
    ("+".toList, 9), ("-".toList, 9), ("*".toList, 10), ("/".toList, 10), ("%".toList, 10)]

def ofBool (b : Bool) : Int := if b then 1 else 0

def apply (op : Text) (a b : Int) : Except Problem Int :=
  match String.ofList op with
  | "||" => .ok (ofBool (a ≠ 0 || b ≠ 0))
  | "&&" => .ok (ofBool (a ≠ 0 && b ≠ 0))
  | "==" => .ok (ofBool (a = b))
  | "!=" => .ok (ofBool (a ≠ b))
  | "<=" => .ok (ofBool (a ≤ b))
  | ">=" => .ok (ofBool (a ≥ b))
  | "<" => .ok (ofBool (a < b))
  | ">" => .ok (ofBool (a > b))
  | "<<" => .ok (a * Int.pow 2 b.toNat)
  | ">>" => .ok (Int.fdiv a (Int.pow 2 b.toNat))
  | "+" => .ok (a + b)
  | "-" => .ok (a - b)
  | "*" => .ok (a * b)
  | "/" => if b = 0 then .error .divisionByZero else .ok (Int.tdiv a b)
  | "%" => if b = 0 then .error .divisionByZero else .ok (Int.tmod a b)
  | _ => .error .malformed

def skip (s : Text) : Text := s.dropWhile fun c => c = ' ' || c = '\t' || c = '\n'

/-- The number of a text: decimal, octal behind a zero, or hexadecimal behind a mark. -/
def number (s : Text) : Except Problem Int :=
  let base := match s with
    | '0' :: 'x' :: _ => 16
    | '0' :: 'X' :: _ => 16
    | '0' :: _ :: _ => 8
    | _ => 10
  match Integer.readIn base s with
  | .ok n => .ok n
  | .error _ => .error .malformed

def isNameChar (c : Char) : Bool := c.isAlphanum || c = '_'

mutual
/-- The value of an operand, and what follows it. -/
def operand (values : Keyed Text) : Nat → Text → Except Problem (Int × Text)
  | 0, _ => .error .malformed
  | fuel + 1, s =>
    match skip s with
    | '(' :: s => do
      let (n, s) ← expression values fuel 0 s
      match skip s with
      | ')' :: s => return (n, s)
      | _ => throw .malformed
    | '-' :: s => do
      let (n, s) ← operand values fuel s
      return (-n, s)
    | '+' :: s => operand values fuel s
    | '!' :: s => do
      let (n, s) ← operand values fuel s
      return (ofBool (n = 0), s)
    | s =>
      let word := s.takeWhile isNameChar
      let rest := s.drop word.length
      match word with
      | [] => .error .malformed
      | c :: _ =>
        if c.isDigit then do return (← number word, rest)
        else
          let value := (Keyed.get? word values).getD []
          do return (← if value.isEmpty then pure 0 else number value, rest)

/-- The value of an expression whose operators bind more closely than a bound, and what follows it. -/
def expression (values : Keyed Text) : Nat → Nat → Text → Except Problem (Int × Text)
  | 0, _, _ => .error .malformed
  | fuel + 1, bound, s => do
    let (n, s) ← operand values fuel s
    expressionFrom values fuel bound n s

def expressionFrom (values : Keyed Text) : Nat → Nat → Int → Text → Except Problem (Int × Text)
  | 0, _, _, _ => .error .malformed
  | fuel + 1, bound, n, s =>
    let s := skip s
    match operators.findSome? fun o => (Text.after? o.1 s).map fun rest => (o, rest) with
    | some ((op, strength), rest) =>
      if strength > bound then do
        let (b, rest) ← expression values fuel strength rest
        expressionFrom values fuel bound (← apply op n b) rest
      else .ok (n, s)
    | none => .ok (n, s)
end

def value (values : Keyed Text) (s : Text) : Except Problem Int :=
  if (skip s).isEmpty then .ok 0
  else do
    let (n, rest) ← expression values (4 * s.length + 4) 0 s
    if (skip rest).isEmpty then return n else throw .malformed

def Problem.words : Problem → Text
  | .malformed => "expecting primary".toList
  | .divisionByZero => "division by zero".toList

end Sitewright.Shell.Calculation
