import Sitewright.File.Tree
/-!
# Differences of file trees

What has to be done to a file system to take it from one tree to another: entries are removed from the
innermost out, and made from the outermost in.

Main statement: an entry that both trees have is left alone (`removal?_of_same`, `making?_of_same`).
-/
set_option autoImplicit false

namespace Sitewright.FileTree

/-- A step from one tree to another. -/
inductive Change where
  | removeFile (loc : Location)
  | removeDirectory (loc : Location)
  | makeDirectory (loc : Location)
  | writeFile (loc : Location) (bytes : Bytes)
deriving DecidableEq, Repr

/-- The removal of what stands at a location and is to be of another kind or not there at all. -/
def removal? (after : FileTree) (loc : Location) (e : Entry) : Option Change :=
  match e, entryAt loc after with
  | .directory, some .directory => none
  | .directory, _ => some (.removeDirectory loc)
  | .file _ _, some (.file _ _) => none
  | .file _ _, _ => some (.removeFile loc)

/-- The making of what is to stand at a location and does not. -/
def making? (before : FileTree) (loc : Location) (e : Entry) : Option Change :=
  match e, entryAt loc before with
  | .directory, some .directory => none
  | .directory, _ => some (.makeDirectory loc)
  | .file bytes _, some (.file old _) => if bytes = old then none else some (.writeFile loc bytes)
  | .file bytes _, _ => some (.writeFile loc bytes)

def changes (before after : FileTree) : List Change :=
  let byDepth := fun (a b : Location × Entry) => decide (a.1.length ≤ b.1.length)
  ((before.mergeSort byDepth).reverse.filterMap fun item => removal? after item.1 item.2) ++
    (after.mergeSort byDepth).filterMap fun item => making? before item.1 item.2

theorem removal?_of_same {after : FileTree} {loc : Location} {e : Entry}
    (h : entryAt loc after = some e) : removal? after loc e = none := by
  cases e <;> simp [removal?, h]

theorem making?_of_same {before : FileTree} {loc : Location} {e : Entry}
    (h : entryAt loc before = some e) : making? before loc e = none := by
  cases e <;> simp [making?, h]

end Sitewright.FileTree
