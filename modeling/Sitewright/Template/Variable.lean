import Sitewright.Json.Writer
import Sitewright.Text.Scan
import Sitewright.Text.Quoted
/-!
# Variables

A variable is addressed by a dotted path into a tree of values: a segment names a member of an
object or, written in digits, an item of an array. A placeholder `\x7b\x7bNAME.segment\x7d\x7d` in a
text is replaced by the text of the value at its path, or by nothing where the path leads nowhere.

Main statement: a path of two parts leads where the second part leads from where the first one
ends (`walk_append`).
-/
set_option autoImplicit false

namespace Sitewright

/-- The tree that variables are looked up in: the members of its root. -/
abbrev Variables := Json.Members

namespace Variable

open Json

/-- A segment that looks like an index of an array and is no integer. -/
structure BadIndex where
  segment : Text
  problem : Integer.Problem
deriving DecidableEq, Repr

def BadIndex.message (b : BadIndex) : Text := b.problem.message (Text.quoted b.segment)

/-! ## Looking up -/

def step (segment : Text) : Value → Except BadIndex (Option Value)
  | .object members => .ok (Keyed.get? segment members)
  | .array items =>
    if Text.looksNumeric segment then
      match Integer.read segment with
      | .ok n => .ok items[n.toNat]?
      | .error problem => .error ⟨segment, problem⟩
    else .ok none
  | _ => .ok none

/-- Where segments lead from a value, one after the other. -/
def walk : List Text → Value → Except BadIndex (Option Value)
  | [], v => .ok (some v)
  | segment :: rest, v =>
    match step segment v with
    | .ok (some next) => walk rest next
    | .ok none => .ok none
    | .error e => .error e

def lookup (path : Text) (tree : Variables) : Except BadIndex (Option Value) :=
  walk (Text.splitOn '.' path) (.object tree)

theorem walk_append (first second : List Text) (v : Value) :
    walk (first ++ second) v =
      match walk first v with
      | .ok (some next) => walk second next
      | .ok none => .ok none
      | .error e => .error e := by
  induction first generalizing v with
  | nil => rfl
  | cons segment rest ih =>
    simp only [List.cons_append, walk]
    rcases step segment v with e | _ | next
    · rfl
    · rfl
    · exact ih next

/-! ## The text of a value -/

/-- The text that a value is replaced by: arrays and objects as compact documents, a double without
a fraction as a whole number. -/
def valueText : Value → Text
  | .null => "null".toList
  | .bool b => if b then "true".toList else "false".toList
  | .int n => Integer.ofInt n
  | .real d =>
    match d.toInt? with
    | some n => Integer.ofInt n
    | none => d.toText
  | .string s => s
  | v => Style.compact.write v

/-- The text at a dotted path; empty where the path leads nowhere. -/
def resolve (path : Text) (tree : Variables) : Except BadIndex Text :=
  (lookup path tree).map fun found => (found.map valueText).getD []

/-! ## Placeholders -/

def isCapital (c : Char) : Bool := decide (65 ≤ c.toNat) && decide (c.toNat ≤ 90)

/-- A letter or digit of ASCII, or a bar. -/
def isWord (c : Char) : Bool :=
  isCapital c || (decide (97 ≤ c.toNat) && decide (c.toNat ≤ 122)) ||
    (decide (48 ≤ c.toNat) && decide (c.toNat ≤ 57)) || c = '_'

/-- A path that a placeholder may hold: a name in capitals and at least one segment after it. -/
def isPath (path : Text) : Bool :=
  match Text.splitOn '.' path with
  | name :: segments =>
    !name.isEmpty && name.all isCapital && !segments.isEmpty &&
      segments.all fun s => !s.isEmpty && s.all isWord
  | [] => false

/-- Recognises a placeholder; it means its path. -/
def placeholder : Recognizer Text
  | '\x7b' :: '\x7b' :: s =>
    let path := s.takeWhile fun c => c = '.' || isWord c
    match s.drop path.length with
    | '\x7d' :: '\x7d' :: _ => if isPath path then some (path, path.length + 4) else none
    | _ => none
  | _ => none

/-- The text with every placeholder replaced by the text at its path. -/
def render (s : Text) (tree : Variables) : Except BadIndex Text :=
  Scan.substituteM placeholder (fun path _ => resolve path tree) s

/-- The tree in short: the names of its root's members in order. -/
def summary (tree : Variables) : Text :=
  "ConfigTree(keys=".toList ++ Text.quotedList (Text.sorted (Keyed.keys tree)) ++ [')']

end Variable
end Sitewright
