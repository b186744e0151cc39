import Sitewright.Text.Casing
import Sitewright.File.Disk
/-!
# Watching files

A watcher knows when each watched file was last changed. A poll looks at the tree again and tells
which files have been added, changed and removed since; what it tells waits in a queue too. A file is
watched when its name ends in one of the given extensions, in any letter case, and no directory
between the watcher's root and the file is ignored, by its name or by its path.
-/
set_option autoImplicit false

namespace Sitewright

/-- What has happened to a file. -/
inductive ChangeKind where
  | added
  | changed
  | removed
deriving DecidableEq, Repr

/-- A file that something has happened to. -/
structure FileChange where
  kind : ChangeKind
  path : Path
deriving DecidableEq, Repr

/-- The watched files and the times of their last changes. -/
abbrev Snapshot := List (Path × Stamp)

/-- A watcher: what it watches, and what it has last seen. -/
structure Watcher where
  root : Path
  extensions : List Text
  ignoredNames : List Text
  ignoredPaths : List Path
  known : Snapshot
deriving Repr

namespace Watcher

/-- The text ends in one of the extensions, in any letter case. -/
def hasExtension (extensions : List Text) (s : Text) : Bool :=
  extensions.any fun e => Text.endsWith (Text.lower e) (Text.lower s)

def alwaysIgnored : List Text :=
  [".git".toList, "node_modules".toList, "__pycache__".toList, ".venv".toList]

def enters (w : Watcher) (dir : Path) : Bool :=
  !List.elem dir.name (alwaysIgnored ++ w.ignoredNames) && !List.elem dir w.ignoredPaths

/-- A file at the end of some names below a directory is watched. -/
def watches (w : Watcher) (dir : Path) : List Text → Bool
  | [] => false
  | [name] => hasExtension w.extensions name
  | name :: rest =>
    let dir : Path := ⟨dir.anchor, dir.parts ++ [name]⟩
    w.enters dir && watches w dir rest

/-- The files that are watched, with the times of their last changes. -/
def snapshot (w : Watcher) (disk : Disk) : Snapshot :=
  match disk.place w.root with
  | .ok (.entry loc .directory) =>
    disk.tree.filterMap fun item =>
      match FileTree.below? loc item.1, item.2 with
      | some names, .file _ stamp =>
        if w.watches w.root names then some (⟨w.root.anchor, w.root.parts ++ names⟩, stamp) else none
      | _, _ => none
  | _ => []

def timeOf? (path : Path) (snapshot : Snapshot) : Option Stamp :=
  (snapshot.find? fun item => decide (item.1 = path)).map Prod.snd

/-- What has happened between two snapshots: first the files added, then those changed, then those
removed. -/
def differences (old new : Snapshot) : List FileChange :=
  (new.filterMap fun item =>
    if (timeOf? item.1 old).isNone then some ⟨.added, item.1⟩ else none) ++
  (new.filterMap fun item =>
    match timeOf? item.1 old with
    | some time => if time = item.2 then none else some ⟨.changed, item.1⟩
    | none => none) ++
  (old.filterMap fun item =>
    if (timeOf? item.1 new).isNone then some ⟨.removed, item.1⟩ else none)

/-- The watcher at its start, which knows the files as they are. -/
def start (w : Watcher) (disk : Disk) : Watcher := { w with known := w.snapshot disk }

/-- What has happened since the last poll, and the watcher that knows of it. -/
def poll (w : Watcher) (disk : Disk) : List FileChange × Watcher :=
  let current := w.snapshot disk
  (differences w.known current, { w with known := current })

end Watcher

/-- A watcher at work: the changes that it has found wait in a queue until they are taken from there. -/
structure Watching where
  watcher : Watcher
  queue : List FileChange
deriving Repr

namespace Watching

/-- The watcher begins to work, and knows the files as they are. -/
def start (w : Watching) (disk : Disk) : Watching := { w with watcher := w.watcher.start disk }

/-- A poll, whose changes are put behind those that wait. -/
def poll (w : Watching) (disk : Disk) : List FileChange × Watching :=
  let (changes, watcher) := w.watcher.poll disk
  (changes, ⟨watcher, w.queue ++ changes⟩)

/-- Polls one after the other, each of which sees another disk: what each of them tells, and the watcher after the last
one. -/
def polls (w : Watching) : List Disk → List (List FileChange) × Watching
  | [] => ([], w)
  | disk :: rest =>
    let (changes, w) := w.poll disk
    let (later, w) := w.polls rest
    (changes :: later, w)

end Watching
end Sitewright
