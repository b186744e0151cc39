import Sitewright.Text.Basic
/-!
# Tags

A tag says what a node stands for. A plain scalar without a tag is taken by its form: as a null, a
truth value, a number, a time, or one of two marks for keys; any other is a text.
-/
set_option autoImplicit false

namespace Sitewright.Yaml

/-- What a node is said to be. -/
inductive Tag where
  | null
  | bool
  | int
  | real
  | string
  | bytes
  | time
  | sequence
  | mapping
  | set
  | pairs
  | merge
  | value
  | unknown
deriving DecidableEq, Repr

namespace Tag

def addresses : List (Text × Tag) :=
  [("null".toList, .null), ("bool".toList, .bool), ("int".toList, .int), ("float".toList, .real),
    ("str".toList, .string), ("binary".toList, .bytes), ("timestamp".toList, .time),
    ("seq".toList, .sequence), ("map".toList, .mapping), ("set".toList, .set),
    ("omap".toList, .pairs), ("pairs".toList, .pairs), ("merge".toList, .merge),
    ("value".toList, .value)]

def ofAddress (s : Text) : Tag :=
  match Text.after? "tag:yaml.org,2002:".toList s with
  | some name =>
    match addresses.find? fun a => decide (a.1 = name) with
    | some (_, tag) => tag
    | none => .unknown
  | none => .unknown

end Tag

/-! ## Forms of plain scalars -/

/-- A digit of a number, or a bar between digits. -/
def isDigitOrBar (c : Char) : Bool := c.isDigit || c = '_'

/-- The text behind a sign, if there is one. -/
def dropSign : Text → Text
  | '-' :: s => s
  | '+' :: s => s
  | s => s

/-- The text is not empty and its characters are of a class. -/
def isRun (cls : Char → Bool) (s : Text) : Bool := !s.isEmpty && s.all cls

/-- What follows parts of a sixtieth each, behind colons; none where there is no such part. -/
def afterSixtieths : Text → Option Text
  | ':' :: a :: b :: s =>
    if '0' ≤ a && a ≤ '5' && b.isDigit then
      match afterSixtieths s with
      | some rest => some rest
      | none => some s
    else if a.isDigit then
      match afterSixtieths (b :: s) with
      | some rest => some rest
      | none => some (b :: s)
    else none
  | [':', a] => if a.isDigit then some [] else none
  | _ => none

/-- A whole number: in base two, eight, ten or sixteen, or in sixtieths. -/
def isInt (s : Text) : Bool :=
  match dropSign s with
  | '0' :: 'b' :: s => isRun (fun c => c = '0' || c = '1' || c = '_') s
  | '0' :: 'x' :: s =>
    isRun (fun c => isDigitOrBar c || ('a' ≤ c && c ≤ 'f') || ('A' ≤ c && c ≤ 'F')) s
  | '0' :: s => s.all fun c => ('0' ≤ c && c ≤ '7') || c = '_'
  | c :: s =>
    c.isDigit &&
      let rest := s.dropWhile isDigitOrBar
      rest.isEmpty || afterSixtieths rest = some []
  | [] => false

/-- Nothing, or an exponent with its sign. -/
def isExponentOrNothing : Text → Bool
  | [] => true
  | e :: sign :: s => (e = 'e' || e = 'E') && (sign = '+' || sign = '-') && isRun Char.isDigit s
  | _ => false

/-- A number with a point, or a word for infinity or for what is no number. -/
def isReal (s : Text) : Bool :=
  List.elem s [".nan".toList, ".NaN".toList, ".NAN".toList] ||
    (match s with
    | '.' :: c :: rest => c.isDigit && isExponentOrNothing (rest.dropWhile isDigitOrBar)
    | _ => false) ||
    (match dropSign s with
    | c :: rest =>
      if c.isDigit then
        match rest.dropWhile isDigitOrBar with
        | '.' :: rest => isExponentOrNothing (rest.dropWhile isDigitOrBar)
        | rest =>
          match afterSixtieths rest with
          | some ('.' :: rest) => rest.all isDigitOrBar
          | _ => false
      else List.elem (c :: rest) [".inf".toList, ".Inf".toList, ".INF".toList]
    | [] => false)

def truthWords : List Text :=
  ["yes".toList, "Yes".toList, "YES".toList, "no".toList, "No".toList, "NO".toList,
    "true".toList, "True".toList, "TRUE".toList, "false".toList, "False".toList, "FALSE".toList,
    "on".toList, "On".toList, "ON".toList, "off".toList, "Off".toList, "OFF".toList]

def nullWords : List Text := [[], "~".toList, "null".toList, "Null".toList, "NULL".toList]

/-- The parts of a time as they are written, those that are left out being empty. -/
structure TimeParts where
  year : Text
  month : Text
  day : Text
  hour : Text
  minute : Text
  second : Text
  fraction : Text
  zone : Text
deriving DecidableEq, Repr

/-- Takes digits from the front of a text: at most `most`, and at least `least`. -/
def takeDigits (least most : Nat) (s : Text) : Option (Text × Text) :=
  let digits := (s.take most).takeWhile Char.isDigit
  if digits.length < least then none else some (digits, s.drop digits.length)

def takeChar (c : Char) (s : Text) : Option Text := Text.after? [c] s

/-- A time zone: a mark for universal time, or hours and minutes behind a sign. -/
def isZone (s : Text) : Bool :=
  match s with
  | ['Z'] => true
  | sign :: rest =>
    (sign = '+' || sign = '-') &&
      match takeDigits 1 2 rest with
      | some (_, []) => true
      | some (_, ':' :: rest) => decide (rest.length = 2) && rest.all Char.isDigit
      | _ => false
  | [] => false

/-- The parts of a day, and of a time behind it. -/
def timeParts? (s : Text) : Option TimeParts := do
  let (year, s) ← takeDigits 4 4 s
  let s ← takeChar '-' s
  let (month, s) ← takeDigits 1 2 s
  let s ← takeChar '-' s
  let (day, s) ← takeDigits 1 2 s
  if s.isEmpty then return ⟨year, month, day, [], [], [], [], []⟩
  else
    let blank := fun (c : Char) => c = ' ' || c = '\t'
    let s ← match s with
      | 'T' :: s => some s
      | 't' :: s => some s
      | c :: _ => if blank c then some (s.dropWhile blank) else none
      | [] => none
    let (hour, s) ← takeDigits 1 2 s
    let s ← takeChar ':' s
    let (minute, s) ← takeDigits 2 2 s
    let s ← takeChar ':' s
    let (second, s) ← takeDigits 2 2 s
    let (fraction, s) := match s with
      | '.' :: s => (s.takeWhile Char.isDigit, s.dropWhile Char.isDigit)
      | s => ([], s)
    if s.isEmpty then return ⟨year, month, day, hour, minute, second, fraction, []⟩
    else
      let zone := s.dropWhile blank
      if isZone zone then return ⟨year, month, day, hour, minute, second, fraction, zone⟩ else none

/-- A day whose month and day are written with two digits, or a day with a time. -/
def isTime (s : Text) : Bool :=
  match timeParts? s with
  | some parts => !parts.hour.isEmpty || (parts.month.length = 2 && parts.day.length = 2)
  | none => false

def dropLastBreak (text : Text) : Text :=
  if text ≠ ['\n'] && text.getLast? = some '\n' then text.dropLast else text

/-- The tag of a plain scalar. A single line end behind it does not count. -/
def Tag.implied (text : Text) : Tag :=
  let s := dropLastBreak text
  if List.elem s truthWords then .bool
  else if isReal s then .real
  else if isInt s then .int
  else if s = "<<".toList then .merge
  else if List.elem s nullWords then .null
  else if isTime s then .time
  else if s = "=".toList then .value
  else if List.elem s [['!'], ['&'], ['*']] then .unknown
  else .string

end Sitewright.Yaml
