import Sitewright.Text.Quoted
/-!
# Paths

A path starts at the working directory or at the root of the file system and goes through named
parts. Empty parts and single dots are dropped when a path is read; a double dot stays, since only
the file system knows where it leads.

Main statement: no part of a path that has been read is empty, a single dot, or holds a slash
(`isPart_of_mem_ofText`).
-/
set_option autoImplicit false

namespace Sitewright

/-- A place in the file system: the names of the directories from its root, and its own. -/
abbrev Location := List Text

/-- Where a path starts. Two slashes in front are kept apart from one. -/
inductive Anchor where
  | here
  | root
  | doubleRoot
deriving DecidableEq, Repr

/-- A path: where it starts, and the names of its parts. -/
structure Path where
  anchor : Anchor
  parts : List Text
deriving DecidableEq, Repr

namespace Path

/-! ## Reading and writing -/

def isPart (part : Text) : Bool := !part.isEmpty && part != ['.']

def partsOf (s : Text) : List Text := (Text.splitOn '/' s).filter isPart

/-- The anchor that the slashes in front of a text stand for. -/
def anchorOf : Text → Anchor
  | '/' :: '/' :: '/' :: _ => .root
  | '/' :: '/' :: _ => .doubleRoot
  | '/' :: _ => .root
  | _ => .here

def ofText (s : Text) : Path := ⟨anchorOf s, partsOf s⟩

def anchorText : Anchor → Text
  | .here => []
  | .root => ['/']
  | .doubleRoot => ['/', '/']

/-- The text of a path; the empty path is a single dot. -/
def toText (p : Path) : Text :=
  let body := Text.join ['/'] p.parts
  match p.anchor, p.parts with
  | .here, [] => ['.']
  | anchor, _ => anchorText anchor ++ body

theorem isPart_of_mem_ofText {s part : Text} (h : part ∈ (ofText s).parts) :
    isPart part = true := (List.mem_filter.1 h).2

def ofLocation (loc : Location) : Path := ⟨.root, loc⟩

/-! ## Joining and taking apart -/

/-- The path that goes on with another one; an absolute one replaces it. -/
def append (p q : Path) : Path :=
  match q.anchor with
  | .here => ⟨p.anchor, p.parts ++ q.parts⟩
  | _ => q

def join (p : Path) (s : Text) : Path := p.append (ofText s)

/-- The last part; empty where the path has none. -/
def name (p : Path) : Text := p.parts.getLast?.getD []

def parent (p : Path) : Path := ⟨p.anchor, p.parts.dropLast⟩

/-- A name cut before its last dot; no cut before or behind the whole of the name. -/
def cutSuffix (name : Text) : Text × Text :=
  let tail := name.reverse.takeWhile (· ≠ '.')
  let stem := (name.reverse.drop (tail.length + 1)).reverse
  if tail.isEmpty || stem.isEmpty then (name, [])
  else (stem, '.' :: tail.reverse)

def stem (p : Path) : Text := (cutSuffix p.name).1

/-- The suffix of the last part, with its dot; empty where it has none. -/
def suffix (p : Path) : Text := (cutSuffix p.name).2

/-- What is left of some parts behind others that they begin with. -/
def partsAfter? : List Text → List Text → Option (List Text)
  | [], rest => some rest
  | _ :: _, [] => none
  | a :: front, b :: rest => if a = b then partsAfter? front rest else none

/-- The path as it looks from another one that it begins with. -/
def relativeTo? (p base : Path) : Option Path :=
  if p.anchor = base.anchor then (partsAfter? base.parts p.parts).map fun rest => ⟨.here, rest⟩
  else none

/-! ## Without a look at the file system -/

/-- Goes along parts; a double dot takes the last name back. -/
def follow (loc : Location) : List Text → Location
  | [] => loc
  | part :: rest =>
    if part = ['.', '.'] then follow loc.dropLast rest else follow (loc ++ [part]) rest

/-- The location that a path leads to where every double dot takes the last name back. -/
def resolve (here : Location) (p : Path) : Location :=
  match p.anchor with
  | .here => follow here p.parts
  | _ => follow [] p.parts

def hasNul (p : Path) : Bool := p.parts.any fun part => List.elem '\x00' part

end Path
end Sitewright
