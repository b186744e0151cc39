import Sitewright.Number.Double
/-!
# Numerals of doubles

A double is written with decimal digits, a point among them or none, an exponent or none, or as a word
for infinity or for what is no number. Digits may be of any script; a sign stands in front, and blanks
around the whole.
-/
set_option autoImplicit false

namespace Sitewright.Numeral

def isDigit (c : Char) : Bool := decide (48 ≤ c.toNat) && decide (c.toNat ≤ 57)

def ofDigits (digits : Text) : Nat := digits.foldl (fun n c => 10 * n + (c.toNat - 48)) 0

/-- The exponent behind an `e`, and what follows; none where no digit follows. -/
def readExponent? : Text → Option (Int × Text)
  | e :: s =>
    if e = 'e' || e = 'E' then
      let (negative, body) := match s with
        | '-' :: body => (true, body)
        | '+' :: body => (false, body)
        | body => (false, body)
      let digits := body.takeWhile isDigit
      if digits.isEmpty then none
      else
        -- an exponent of many digits is beyond every double, however many they are
        let size := ofDigits ((digits.dropWhile (· = '0')).take 12)
        some (if negative then -(size : Int) else size, body.dropWhile isDigit)
    else none
  | [] => none

def plainDigits (s : Text) : Text :=
  s.map fun c => match Text.digit? c with
    | some d => Char.ofNat (48 + d)
    | none => c

def readMagnitude? (negative : Bool) (s : Text) : Option Double :=
  let word := s.map Char.toLower
  if word = "inf".toList || word = "infinity".toList then some (Double.infinity negative)
  else if word = "nan".toList then some Double.nan
  else
    let whole := s.takeWhile isDigit
    let rest := s.drop whole.length
    let decimals := if rest.head? = some '.' then rest.tail.takeWhile isDigit else []
    let rest := if rest.head? = some '.' then rest.drop (decimals.length + 1) else rest
    let exponent := readExponent? rest
    let rest := (exponent.map Prod.snd).getD rest
    if (whole.isEmpty && decimals.isEmpty) || !rest.isEmpty then none
    else
      let digits := (whole ++ decimals).dropWhile (· = '0')
      let power := (exponent.map Prod.fst).getD 0 - decimals.length
      some (Double.ofDecimal negative (ofDigits digits) digits.length power)

def read? (s : Text) : Option Double :=
  match plainDigits (Text.trimBoth Integer.isEdgeBlank s) with
  | '-' :: body => readMagnitude? true body
  | '+' :: body => readMagnitude? false body
  | body => readMagnitude? false body

end Sitewright.Numeral
