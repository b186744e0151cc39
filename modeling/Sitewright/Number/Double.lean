import Sitewright.Text.Integer
/-!
# Doubles

A double is a binary64 number, given by its bits, so that two doubles are equal exactly when they
are the same number with the same sign. Everything is computed with whole numbers: a finite
double is `m * 2 ^ q`, a decimal numeral is rounded to the nearest double, ties to even, and a
double is written with the fewest digits that read back, of those the nearest, ties to even.
-/
set_option autoImplicit false

namespace Sitewright

/-- A binary64 number. -/
structure Double where
  bits : UInt64
deriving DecidableEq, Repr

namespace Double

/-! ## Parts -/

/-- The bit of the sign, `2 ^ 63`. -/
def signBit : Nat := 0x8000000000000000

/-- The bit above the fraction, `2 ^ 52`; a normal double has it without writing it. -/
def leadingBit : Nat := 0x10000000000000

def isNegative (d : Double) : Bool := decide (d.bits.toNat ≥ signBit)

def exponentField (d : Double) : Nat := d.bits.toNat / leadingBit % 2048

def fractionField (d : Double) : Nat := d.bits.toNat % leadingBit

def isFinite (d : Double) : Bool := decide (d.exponentField ≠ 2047)

def isNaN (d : Double) : Bool := decide (d.exponentField = 2047) && decide (d.fractionField ≠ 0)

/-- The whole number `m` of a finite double `m * 2 ^ q`. -/
def mantissa (d : Double) : Nat :=
  if d.exponentField = 0 then d.fractionField else leadingBit + d.fractionField

/-- The exponent `q` of a finite double `m * 2 ^ q`. -/
def exponent (d : Double) : Int :=
  if d.exponentField = 0 then -1074 else (d.exponentField : Int) - 1075

def ofParts (negative : Bool) (rest : Nat) : Double :=
  ⟨UInt64.ofNat ((if negative then signBit else 0) + rest)⟩

/-- Infinity, with a sign. -/
def infinity (negative : Bool) : Double := ofParts negative (2047 * leadingBit)

def nan : Double := ofParts false (2047 * leadingBit + leadingBit / 2)

/-! ## Reading a numeral -/

/-- `num / den` rounded to a whole number, a half to the even neighbour. -/
def roundHalfEven (num den : Nat) : Nat :=
  let low := num / den
  let twice := 2 * (num % den)
  if twice < den || (twice = den && low % 2 = 0) then low else low + 1

/-- `num / den` times `2 ^ -q`, as a fraction. -/
def scaled (num den : Nat) (q : Int) : Nat × Nat :=
  match q with
  | .ofNat k => (num, den * Nat.pow 2 k)
  | .negSucc k => (num * Nat.pow 2 (k + 1), den)

/-- The exponent at which the quotient of a positive fraction has fifty-three bits, but not below
the least exponent of a double. -/
def exponentFor (num den : Nat) : Int :=
  let guess := (num.log2 : Int) - (den.log2 : Int) - 52
  let (n, d) := scaled num den guess
  max (if n / d < leadingBit then guess - 1 else guess) (-1074)

/-- The double nearest to `num / den`. -/
def ofFraction (negative : Bool) (num den : Nat) : Double :=
  if num = 0 then ofParts negative 0
  else
    let q := exponentFor num den
    let (n, d) := scaled num den q
    let m := roundHalfEven n d
    let (m, q) := if m = 2 * leadingBit then (leadingBit, q + 1) else (m, q)
    if q > 971 then infinity negative
    else if m < leadingBit then ofParts negative m
    else ofParts negative ((q + 1075).toNat * leadingBit + (m - leadingBit))

/-- The double nearest to `digits * 10 ^ power`, where `digits` is written with `count` digits.
Numbers far beyond the range of a double are not computed in full. -/
def ofDecimal (negative : Bool) (digits count : Nat) (power : Int) : Double :=
  if digits = 0 then ofParts negative 0
  else if power > 400 then infinity negative
  else if power + count < -400 then ofParts negative 0
  else match power with
    | .ofNat k => ofFraction negative (digits * Nat.pow 10 k) 1
    | .negSucc k => ofFraction negative digits (Nat.pow 10 (k + 1))

/-! ## Whole numbers -/

/-- The whole number that the double is; none where it has a fraction or is not finite. -/
def toInt? (d : Double) : Option Int :=
  if !d.isFinite then none
  else
    let size : Option Nat := match d.exponent with
      | .ofNat k => some (d.mantissa * Nat.pow 2 k)
      | .negSucc k =>
        if d.mantissa % Nat.pow 2 (k + 1) = 0 then some (d.mantissa / Nat.pow 2 (k + 1)) else none
    size.map fun n => if d.isNegative then -(n : Int) else n

/-! ## Arithmetic -/

/-- The fraction that a finite double is: its numerator and its denominator. -/
def fraction (d : Double) : Int × Nat :=
  let sign : Int := if d.isNegative then -1 else 1
  match d.exponent with
  | .ofNat k => (sign * d.mantissa * Nat.pow 2 k, 1)
  | .negSucc k => (sign * d.mantissa, Nat.pow 2 (k + 1))

/-- The sum, rounded. A sum that is zero is negative only where both parts are. -/
def plus (a b : Double) : Double :=
  if a.isNaN || b.isNaN then nan
  else if !a.isFinite then
    if b.isFinite || a.isNegative = b.isNegative then a else nan
  else if !b.isFinite then b
  else
    let (m, c) := a.fraction
    let (n, d) := b.fraction
    let sum := m * d + n * c
    ofFraction (if sum = 0 then a.isNegative && b.isNegative else decide (sum < 0)) sum.natAbs (c * d)

/-- The product of two doubles, rounded. -/
def times (a b : Double) : Double :=
  let negative := a.isNegative ≠ b.isNegative
  if a.isNaN || b.isNaN then nan
  else if !a.isFinite || !b.isFinite then
    if a.fraction.1 = 0 || b.fraction.1 = 0 then nan else infinity negative
  else
    let (m, c) := a.fraction
    let (n, d) := b.fraction
    ofFraction negative (m * n).natAbs (c * d)

def negate (d : Double) : Double := ofParts (!d.isNegative) (d.bits.toNat % signBit)

/-! ## The shortest digits -/

/-- The digits of a number and the place of its point: the number is `0.ddd * 10 ^ point`. -/
structure Digits where
  digits : Nat
  point : Int
deriving DecidableEq, Repr

/-- The place of the point of `num / den`: the least power of ten that exceeds it. -/
def pointOf (num den : Nat) : Int :=
  if num ≥ den then (Integer.ofNat (num / den)).length
  else
    let count := (Integer.ofNat (den / num)).length
    if num * Nat.pow 10 (count - 1) = den then 2 - (count : Int) else 1 - (count : Int)

/-- The interval of numbers that round to a double, with the double in the middle, in units of
`2 ^ (q - 2) / den`. -/
structure Interval where
  low : Nat
  middle : Nat
  high : Nat
  den : Nat
  /-- The ends belong to the interval. -/
  closed : Bool

/-- The interval of the finite double `m * 2 ^ q`; it is narrower below where the binade begins. -/
def interval (d : Double) : Interval :=
  let m := d.mantissa
  let below := if m = leadingBit && decide (d.exponentField > 1) then 1 else 2
  let (factor, den) := match d.exponent - 2 with
    | .ofNat k => (Nat.pow 2 k, 1)
    | .negSucc k => (1, Nat.pow 2 (k + 1))
  ⟨(4 * m - below) * factor, 4 * m * factor, (4 * m + 2) * factor, den, m % 2 = 0⟩

/-- The fraction `num / den` lies in the interval. -/
def Interval.holds (i : Interval) (num den : Nat) : Bool :=
  let x := num * i.den
  if i.closed then decide (i.low * den ≤ x) && decide (x ≤ i.high * den)
  else decide (i.low * den < x) && decide (x < i.high * den)

/-- The neighbour of the middle on the grid of `count` digits that lies in the interval, the
nearer one where both do, the even one of two equally near. -/
def onGrid? (i : Interval) (point : Int) (count : Nat) : Option Nat :=
  let (up, down) : Nat × Nat := match point - count with
    | .ofNat k => (Nat.pow 10 k, 1)
    | .negSucc k => (1, Nat.pow 10 (k + 1))
  let low := i.middle * down / (i.den * up)
  let inside := fun a => i.holds (a * up) down
  match inside low, inside (low + 1) with
  | true, true => some (roundHalfEven (i.middle * down) (i.den * up))
  | true, false => some low
  | false, true => some (low + 1)
  | false, false => none

/-- The grids of `count` digits and more, tried in turn. -/
def shortestFrom (i : Interval) (point : Int) (count : Nat) : Nat → Digits
  | 0 => ⟨0, point⟩
  | more + 1 =>
    match onGrid? i point count with
    | some a => if a = Nat.pow 10 count then ⟨1, point + 1⟩ else ⟨a, point⟩
    | none => shortestFrom i point (count + 1) more

/-- The shortest digits of a finite double other than zero. -/
def shortest (d : Double) : Digits :=
  let i := d.interval
  shortestFrom i (pointOf i.middle i.den) 1 17

/-! ## Writing -/

def stripZeros (digits : Text) : Text := Text.trimEnd (· = '0') digits

/-- Digits with their point: positional for exponents from -4 to 15, with an exponent of at least two
digits beyond. -/
def Digits.toText (d : Digits) : Text :=
  let ds := stripZeros (Integer.ofNat d.digits)
  let exponent := d.point - 1
  if exponent < -4 || exponent ≥ 16 then
    let fraction := if ds.length ≤ 1 then [] else '.' :: ds.drop 1
    let sign := if exponent < 0 then '-' else '+'
    ds.take 1 ++ fraction ++ ['e', sign] ++ Integer.padded 2 exponent.natAbs
  else if d.point ≤ 0 then
    ['0', '.'] ++ List.replicate d.point.natAbs '0' ++ ds
  else
    let whole := d.point.toNat
    if ds.length ≤ whole then ds ++ List.replicate (whole - ds.length) '0' ++ ['.', '0']
    else ds.take whole ++ '.' :: ds.drop whole

def finiteText (d : Double) : Text :=
  let size := if d.mantissa = 0 then "0.0".toList else d.shortest.toText
  if d.isNegative then '-' :: size else size

/-- A double as a word of a text: `inf` and `nan` where it is not finite. -/
def toText (d : Double) : Text :=
  if d.isFinite then d.finiteText
  else if d.isNaN then "nan".toList
  else if d.isNegative then "-inf".toList else "inf".toList

end Double
end Sitewright
