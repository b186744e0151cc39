import Sitewright.File.Path
import Sitewright.Text.Utf8
/-!
# File trees

A file tree says what stands at each location: nothing, a directory, or a file with its bytes and
the time of its last change.

Main statements: putting or erasing an entry changes that location only (`entryAt_put_of_ne`,
`entryAt_erase_of_ne`), and erasing a branch takes everything at and below its top and nothing else
(`entryAt_prune`).
-/
set_option autoImplicit false

namespace Sitewright

/-- The time of a file's last change: set in whole seconds, or that of a write, which is later than
every write before it. -/
inductive Stamp where
  | seconds (n : Int)
  | write (n : Nat)
deriving DecidableEq, Repr

/-- What stands at a location. -/
inductive Entry where
  | directory
  | file (bytes : Bytes) (stamp : Stamp)
deriving DecidableEq, Repr

abbrev FileTree := List (Location × Entry)

namespace FileTree

/-! ## Single entries -/

def entryAt (loc : Location) : FileTree → Option Entry
  | [] => none
  | (l, e) :: rest => if l = loc then some e else entryAt loc rest

def erase (loc : Location) (tree : FileTree) : FileTree :=
  tree.filter fun item => !decide (item.1 = loc)

/-- The tree with an entry at a location, in the place of the one that stood there. -/
def put (loc : Location) (e : Entry) : FileTree → FileTree
  | [] => [(loc, e)]
  | (l, old) :: rest => if l = loc then (l, e) :: rest else (l, old) :: put loc e rest

theorem entryAt_put_self (loc : Location) (e : Entry) (tree : FileTree) :
    entryAt loc (put loc e tree) = some e := by
  induction tree with
  | nil => simp [put, entryAt]
  | cons item rest ih =>
    obtain ⟨l, old⟩ := item
    by_cases h : l = loc <;> simp [put, entryAt, h, ih]

theorem entryAt_put_of_ne {loc other : Location} (h : other ≠ loc) (e : Entry) (tree : FileTree) :
    entryAt other (put loc e tree) = entryAt other tree := by
  induction tree with
  | nil => simp [put, entryAt, h.symm]
  | cons item rest ih =>
    obtain ⟨l, old⟩ := item
    by_cases hl : l = loc
    · subst hl
      simp [put, entryAt, h.symm]
    · simp [put, entryAt, hl, ih]

/-! ## Branches -/

/-- What is left of a location behind the top of a branch that it belongs to. -/
def below? (top loc : Location) : Option Location := Path.partsAfter? top loc

/-- The location is the top of the branch or lies below it. -/
def isBelow (top loc : Location) : Bool := (below? top loc).isSome

def prune (top : Location) (tree : FileTree) : FileTree :=
  tree.filter fun item => !isBelow top item.1

theorem entryAt_filter (keep : Location → Bool) (loc : Location) (tree : FileTree) :
    entryAt loc (tree.filter fun item => keep item.1) =
      if keep loc then entryAt loc tree else none := by
  induction tree with
  | nil => simp [entryAt]
  | cons item rest ih =>
    obtain ⟨l, e⟩ := item
    by_cases hl : l = loc
    · subst hl
      by_cases hk : keep l
      · simp [hk, entryAt]
      · simp [hk, ih]
    · by_cases hk : keep l
      · simp [hk, entryAt, hl, ih]
      · simp [hk, entryAt, hl, ih]

theorem entryAt_prune (top loc : Location) (tree : FileTree) :
    entryAt loc (prune top tree) = if isBelow top loc then none else entryAt loc tree := by
  rw [prune, entryAt_filter fun l => !isBelow top l]
  cases isBelow top loc <;> simp

theorem entryAt_erase_self (loc : Location) (tree : FileTree) :
    entryAt loc (erase loc tree) = none := by
  rw [erase, entryAt_filter fun l => !decide (l = loc)]
  simp

theorem entryAt_erase_of_ne {loc other : Location} (h : other ≠ loc) (tree : FileTree) :
    entryAt other (erase loc tree) = entryAt other tree := by
  rw [erase, entryAt_filter fun l => !decide (l = loc)]
  simp [h]

/-! ## Directories -/

/-- The names in a directory, in the order in which the tree holds them. -/
def names (dir : Location) (tree : FileTree) : List Text :=
  tree.filterMap fun item =>
    match below? dir item.1 with
    | some [name] => some name
    | _ => none

def isEmptyDir (dir : Location) (tree : FileTree) : Bool := (names dir tree).isEmpty

def nameLimit : Nat := 255

/-! ## Going along a path -/

/-- Why a path leads to nothing that can be worked with. -/
inductive Flaw where
  | missing
  | taken
  | notDirectory
  | isDirectory
  | nameTooLong
  | notEmpty
deriving DecidableEq, Repr

/-- Where a path leads: to an entry, or to a name that is still free in a directory. -/
inductive Place where
  | entry (loc : Location) (e : Entry)
  | vacant (loc : Location)
deriving DecidableEq, Repr

/-- Goes along parts from a directory. Each part but the last has to be a directory; a double dot
leads to the directory above. -/
def walk (tree : FileTree) (dir : Location) : List Text → Except Flaw Place
  | [] => .ok (.entry dir .directory)
  | part :: rest =>
    if part = ['.', '.'] then walk tree dir.dropLast rest
    else if Utf8.size part > nameLimit then .error .nameTooLong
    else
      let loc := dir ++ [part]
      match entryAt loc tree with
      | none => if rest.isEmpty then .ok (.vacant loc) else .error .missing
      | some .directory => walk tree loc rest
      | some e => if rest.isEmpty then .ok (.entry loc e) else .error .notDirectory

end FileTree
end Sitewright
