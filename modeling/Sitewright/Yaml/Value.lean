import Sitewright.Json.Value
import Sitewright.Text.Quoted
import Sitewright.Text.Utf8
/-!
# Values of a settings document

A settings document holds scalars (nulls, truth values, numbers, texts, bytes, dates and times),
sequences, mappings, sets and ordered pairs. Two scalars that are the same number are one key,
whatever their types.
-/
set_option autoImplicit false

namespace Sitewright.Yaml

/-- A day of the calendar. -/
structure Day where
  year : Nat
  month : Nat
  day : Nat
deriving DecidableEq, Repr

/-- A time of day, and how many seconds it is ahead of universal time, where that is known. -/
structure Time where
  hour : Nat
  minute : Nat
  second : Nat
  microsecond : Nat
  offset : Option Int
deriving DecidableEq, Repr

/-- A value that can be a key. -/
inductive Scalar where
  | null
  | bool (b : Bool)
  | int (n : Int)
  | real (d : Double)
  | string (s : Text)
  | bytes (b : Bytes)
  | day (d : Day)
  | moment (d : Day) (t : Time)
deriving DecidableEq, Repr

/-- A value of a document. -/
inductive Value where
  | scalar (s : Scalar)
  | sequence (items : List Value)
  | mapping (members : List (Scalar × Value))
  | set (items : List Scalar)
  | pairs (items : List (Value × Value))
deriving Repr, Inhabited

def Value.string (s : Text) : Value := .scalar (.string s)

/-! ## Keys -/

/-- The whole number that a scalar counts as when it is a key. -/
def Scalar.number? : Scalar → Option Int
  | .bool b => some (if b then 1 else 0)
  | .int n => some n
  | .real d => d.toInt?
  | _ => none

def Scalar.sameKey (a b : Scalar) : Bool :=
  match a.number?, b.number? with
  | some m, some n => decide (m = n)
  | _, _ => decide (a = b)

/-- The members with one of them given a value: in its place, if the key is there, and else at the
end. -/
def putMember (members : List (Scalar × Value)) (key : Scalar) (value : Value) :
    List (Scalar × Value) :=
  match members with
  | [] => [(key, value)]
  | m :: rest =>
    if m.1.sameKey key then (m.1, value) :: rest else m :: putMember rest key value

/-- A mapping of the entries of a document, of which the last one with a key gives its value. -/
def membersOf (entries : List (Scalar × Value)) : List (Scalar × Value) :=
  entries.foldl (fun members e => putMember members e.1 e.2) []

/-! ## As they are shown -/

def shownByte (quote : Char) (b : UInt8) : Text :=
  let n := b.toNat
  if n = quote.toNat || n = 92 then ['\\', Char.ofNat n]
  else if n = 9 then ['\\', 't']
  else if n = 10 then ['\\', 'n']
  else if n = 13 then ['\\', 'r']
  else if 32 ≤ n && n < 127 then [Char.ofNat n]
  else '\\' :: 'x' :: Integer.hex 2 n

def shownBytes (bytes : Bytes) : Text :=
  let quote := if bytes.any (· = 39) && !bytes.any (· = 34) then '"' else '\''
  'b' :: quote :: bytes.flatMap (shownByte quote) ++ [quote]

def shownNumbers (ns : List Nat) : Text := Text.join [',', ' '] (ns.map Integer.ofNat)

/-- A span of time, in days and the seconds of a further one. -/
def shownSpan (seconds : Int) : Text :=
  let days := Int.fdiv seconds 86400
  let rest := Int.fmod seconds 86400
  let parts := (if days = 0 then [] else ["days=".toList ++ Integer.ofInt days]) ++
    (if rest = 0 then [] else ["seconds=".toList ++ Integer.ofInt rest])
  "datetime.timedelta(".toList ++
    (if parts.isEmpty then ['0'] else Text.join [',', ' '] parts) ++ [')']

/-- A time zone, by how far it is ahead of universal time. -/
def shownOffset (seconds : Int) : Text :=
  if seconds = 0 then "datetime.timezone.utc".toList
  else "datetime.timezone(".toList ++ shownSpan seconds ++ [')']

/-- The numbers of a moment; seconds and their fraction are left out where they are zero. -/
def momentNumbers (d : Day) (t : Time) : List Nat :=
  [d.year, d.month, d.day, t.hour, t.minute] ++
    (if t.microsecond ≠ 0 then [t.second, t.microsecond]
    else if t.second ≠ 0 then [t.second] else [])

def Scalar.shown : Scalar → Text
  | .null => "None".toList
  | .bool b => if b then "True".toList else "False".toList
  | .int n => Integer.ofInt n
  | .real d => d.toText
  | .string s => Text.quoted s
  | .bytes b => shownBytes b
  | .day d => "datetime.date(".toList ++ shownNumbers [d.year, d.month, d.day] ++ [')']
  | .moment d t =>
    let zone := match t.offset with
      | some seconds => ", tzinfo=".toList ++ shownOffset seconds
      | none => []
    "datetime.datetime(".toList ++ shownNumbers (momentNumbers d t) ++ zone ++ [')']

def Value.typeName : Value → Text
  | .scalar .null => "NoneType".toList
  | .scalar (.bool _) => "bool".toList
  | .scalar (.int _) => "int".toList
  | .scalar (.real _) => "float".toList
  | .scalar (.string _) => "str".toList
  | .scalar (.bytes _) => "bytes".toList
  | .scalar (.day _) => "date".toList
  | .scalar (.moment _ _) => "datetime".toList
  | .sequence _ => "list".toList
  | .mapping _ => "dict".toList
  | .set _ => "set".toList
  | .pairs _ => "list".toList

/-- The value counts as nothing: null, false, zero or empty. -/
def Value.isNothing : Value → Bool
  | .scalar .null => true
  | .scalar (.bool b) => !b
  | .scalar (.int n) => decide (n = 0)
  | .scalar (.real d) => decide (d.toInt? = some 0)
  | .scalar (.string s) => s.isEmpty
  | .scalar (.bytes b) => b.isEmpty
  | .scalar (.day _) => false
  | .scalar (.moment _ _) => false
  | .sequence items => items.isEmpty
  | .mapping members => members.isEmpty
  | .set items => items.isEmpty
  | .pairs items => items.isEmpty

/-! ## Order of keys -/

/-- The kinds of scalars that can be ordered among themselves. -/
inductive Kind where
  | null
  | number
  | string
  | bytes
  | day
  | moment (zoned : Bool)
deriving DecidableEq, Repr

def Scalar.kind : Scalar → Kind
  | .null => .null
  | .bool _ | .int _ | .real _ => .number
  | .string _ => .string
  | .bytes _ => .bytes
  | .day _ => .day
  | .moment _ t => .moment t.offset.isSome

def listBefore {α : Type} [DecidableEq α] (lt : α → α → Bool) : List α → List α → Bool
  | [], [] => false
  | [], _ :: _ => true
  | _ :: _, [] => false
  | a :: s, b :: t => if a = b then listBefore lt s t else lt a b

/-- The number of days from the first day of the calendar. -/
def Day.number (d : Day) : Int :=
  let y : Int := if d.month ≤ 2 then (d.year : Int) - 1 else d.year
  let m : Int := if d.month ≤ 2 then (d.month : Int) + 9 else (d.month : Int) - 3
  365 * y + Int.fdiv y 4 - Int.fdiv y 100 + Int.fdiv y 400 + Int.fdiv (153 * m + 2) 5 + d.day

/-- The place of a moment on the time line, in microseconds. -/
def instant (d : Day) (t : Time) : Int :=
  (((d.number * 24 + t.hour) * 60 + t.minute) * 60 + t.second - t.offset.getD 0) * 1000000 +
    t.microsecond

/-- The fraction that a number is; a number that is not finite counts as beyond all others. -/
def Scalar.fraction : Scalar → Int × Nat
  | .bool b => (if b then 1 else 0, 1)
  | .int n => (n, 1)
  | .real d => if d.isFinite then d.fraction else (if d.isNegative then -(Int.pow 10 5000) else Int.pow 10 5000, 1)
  | _ => (0, 1)

def Scalar.before (a b : Scalar) : Bool :=
  match a, b with
  | .string s, .string t => Text.before s t
  | .bytes s, .bytes t => listBefore (fun x y => decide (x < y)) s t
  | .day s, .day t => decide (s.number < t.number)
  | .moment d t, .moment e u => decide (instant d t < instant e u)
  | a, b =>
    let x := a.fraction
    let y := b.fraction
    decide (x.1 * y.2 < y.1 * x.2)

/-- The scalars in ascending order; none where they are of several kinds. -/
def sortedScalars? (scalars : List Scalar) : Option (List Scalar) :=
  match scalars with
  | [] => some []
  | first :: rest =>
    if rest.all fun s => decide (s.kind = first.kind) then
      some (scalars.mergeSort fun a b => !b.before a)
    else none

end Sitewright.Yaml
