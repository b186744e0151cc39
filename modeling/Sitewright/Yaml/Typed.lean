import Sitewright.Number.Numeral
import Sitewright.Text.Casing
import Sitewright.Yaml.Implied
import Sitewright.Yaml.Problem
import Sitewright.Yaml.Value
/-!
# Scalars by their tags

The text of a scalar and its tag give its value. A number may have bars between its digits and may be
written in sixtieths, a time has to be one of the calendar, and bytes are written in base 64.
-/
set_option autoImplicit false

namespace Sitewright.Yaml

/-! ## Numbers -/

def integerIn (base : Nat) (s : Text) : Except Problem Int :=
  match Integer.readIn base s with
  | .ok n => .ok n
  | .error .malformed => .error (.badInteger base s)
  | .error (.tooLong digits) => .error (.tooManyDigits digits)

def readMagnitude (s : Text) : Except Problem Int :=
  match s with
  | [] => .error .emptyNumber
  | ['0'] => .ok 0
  | '0' :: 'b' :: rest => integerIn 2 rest
  | '0' :: 'x' :: rest => integerIn 16 rest
  | '0' :: _ => integerIn 8 s
  | _ =>
    if List.elem ':' s then do
      let parts ← (Text.splitOn ':' s).mapM (integerIn 10)
      return parts.foldl (fun n part => 60 * n + part) 0
    else integerIn 10 s

/-- The sign of a number without bars, and what is behind it. -/
def signOf (s : Text) : Except Problem (Bool × Text) :=
  match s with
  | [] => .error .emptyNumber
  | '-' :: rest => .ok (true, rest)
  | '+' :: rest => .ok (false, rest)
  | _ => .ok (false, s)

def readInt (text : Text) : Except Problem Scalar := do
  let (negative, s) ← signOf (text.filter (· ≠ '_'))
  let n ← readMagnitude s
  return .int (if negative then -n else n)

def doubleOf (s : Text) : Except Problem Double :=
  match Numeral.read? s with
  | some d => .ok d
  | none => .error (.badNumber s)

/-- The sum of parts that are worth sixty times as much from each to the one before; the last one comes
first here, and is worth `unit`. -/
def sumSixtieths (sum : Double) (unit : Nat) : List Double → Except Problem Double
  | [] => .ok sum
  | part :: parts =>
    let size := Double.ofFraction false unit 1
    if size.isFinite then sumSixtieths (sum.plus (part.times size)) (60 * unit) parts
    else .error .tooLarge

def readReal (text : Text) : Except Problem Scalar := do
  let (negative, s) ← signOf (Text.lower (text.filter (· ≠ '_')))
  let d ←
    if s = ".inf".toList then pure (Double.infinity false)
    else if s = ".nan".toList then pure Double.nan
    else if List.elem ':' s then do
      let parts ← (Text.splitOn ':' s).mapM doubleOf
      sumSixtieths (Double.ofParts false 0) 1 parts.reverse
    else doubleOf s
  return .real (if negative then d.negate else d)

def readTruth (text : Text) : Except Problem Scalar :=
  let word := Text.lower text
  if List.elem word ["yes".toList, "true".toList, "on".toList] then .ok (.bool true)
  else if List.elem word ["no".toList, "false".toList, "off".toList] then .ok (.bool false)
  else .error (.badTruth word)

/-! ## Times -/

def numberOf (digits : Text) : Nat := Numeral.ofDigits digits

def daysIn (year month : Nat) : Nat :=
  if month = 2 then
    if year % 4 = 0 && (year % 100 ≠ 0 || year % 400 = 0) then 29 else 28
  else if List.elem month [4, 6, 9, 11] then 30
  else 31

def dayOf (year month day : Nat) : Except Problem Day :=
  if year = 0 then .error (.badTime "year 0 is out of range".toList)
  else if month = 0 || month > 12 then .error (.badTime "month must be in 1..12".toList)
  else if day = 0 || day > daysIn year month then
    .error (.badTime "day is out of range for month".toList)
  else .ok ⟨year, month, day⟩

/-- How far a time zone is ahead of universal time; it is less than a day. -/
def offsetOf (zone : Text) : Except Problem (Option Int) :=
  match zone with
  | [] => .ok none
  | sign :: rest =>
    let parts := Text.splitOn ':' rest
    let seconds : Int := (numberOf (parts.headD []) * 60 + numberOf ((parts.drop 1).headD [])) * 60
    let seconds := if sign = 'Z' then 0 else if sign = '-' then -seconds else seconds
    if -86400 < seconds && seconds < 86400 then .ok (some seconds)
    else .error (.badTime ("offset must be a timedelta strictly between ".toList ++
      "-timedelta(hours=24) and timedelta(hours=24), not ".toList ++ shownSpan seconds ++ ['.']))

/-- The number of millionths that digits behind a point stand for; further digits are left out. -/
def millionths (digits : Text) : Nat :=
  let shown := digits.take 6
  numberOf (shown ++ List.replicate (6 - shown.length) '0')

def timeOf (parts : TimeParts) (offset : Option Int) : Except Problem Time :=
  let hour := numberOf parts.hour
  let minute := numberOf parts.minute
  let second := numberOf parts.second
  if hour > 23 then .error (.badTime "hour must be in 0..23".toList)
  else if minute > 59 then .error (.badTime "minute must be in 0..59".toList)
  else if second > 59 then .error (.badTime "second must be in 0..59".toList)
  else .ok ⟨hour, minute, second, millionths parts.fraction, offset⟩

/-- A day, or a moment. -/
def readTime (text : Text) : Except Problem Scalar :=
  match timeParts? (dropLastBreak text) with
  | none => .error .notATime
  | some parts => do
    let offset ← offsetOf parts.zone
    let day ← dayOf (numberOf parts.year) (numberOf parts.month) (numberOf parts.day)
    if parts.hour.isEmpty then return .day day
    else return .moment day (← timeOf parts offset)

/-! ## Bytes -/

def sextet? (c : Char) : Option Nat :=
  if 'A' ≤ c && c ≤ 'Z' then some (c.toNat - 65)
  else if 'a' ≤ c && c ≤ 'z' then some (c.toNat - 71)
  else if c.isDigit then some (c.toNat + 4)
  else if c = '+' then some 62
  else if c = '/' then some 63
  else none

/-- The loop of the reading in base 64: `out` holds the bytes so far, in reverse, `count` tells how many
characters of the group of four have been read, `left` are the bits left over, and `pads` counts the
signs that fill the group. Other characters are passed over. -/
def base64From (out : Bytes) (count left pads : Nat) : Text → Option Bytes
  | [] => if count = 0 then some out.reverse else none
  | c :: s =>
    if c = '=' then
      if count < 2 then base64From out count left pads s
      else if count + pads + 1 ≥ 4 then some out.reverse
      else base64From out count left (pads + 1) s
    else match sextet? c with
      | none => base64From out count left pads s
      | some n =>
        match count with
        | 0 => base64From out 1 n 0 s
        | 1 => base64From (UInt8.ofNat (left * 4 + n / 16) :: out) 2 (n % 16) 0 s
        | 2 => base64From (UInt8.ofNat (left * 16 + n / 4) :: out) 3 (n % 4) 0 s
        | _ => base64From (UInt8.ofNat (left * 64 + n) :: out) 0 0 0 s

def readBytes (text : Text) : Except Problem Scalar :=
  if text.all fun c => decide (c.toNat < 128) then
    match base64From [] 0 0 0 text with
    | some bytes => .ok (.bytes bytes)
    | none => .error .malformed
  else .error .malformed

/-! ## Every tag -/

def Tag.read (tag : Tag) (text : Text) : Except Problem Scalar :=
  match tag with
  | .null => .ok .null
  | .bool => readTruth text
  | .int => readInt text
  | .real => readReal text
  | .string => .ok (.string text)
  | .bytes => readBytes text
  | .time => readTime text
  | .sequence | .mapping | .set | .pairs | .merge | .value | .unknown => .error .malformed

def Tag.isCollection : Tag → Bool
  | .sequence | .mapping | .set | .pairs => true
  | _ => false

end Sitewright.Yaml
