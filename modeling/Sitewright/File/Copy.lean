import Sitewright.File.Disk
/-!
# Copying a tree

A directory is copied onto another one that may exist already: directories are merged, files
replaced. A file whose target is a directory lands inside that directory under its own name.
Copying goes on after a failure; what failed is gathered.
-/
set_option autoImplicit false

namespace Sitewright

/-- A failure during a copy. -/
inductive CopyNote where
  /-- A source that could not be copied to its target, and why. -/
  | failed (source target why : Text)
  /-- A letter of the message that source and target are one file. -/
  | letter (c : Char)
deriving DecidableEq, Repr

def CopyNote.shown : CopyNote → Text
  | .failed source target why =>
    '(' :: Text.join [',', ' '] [Text.quoted source, Text.quoted target, Text.quoted why] ++ [')']
  | .letter c => Text.quoted [c]

def CopyNote.listed (notes : List CopyNote) : Text :=
  '[' :: Text.join [',', ' '] (notes.map CopyNote.shown) ++ [']']

/-- How a copy ends that is not complete: a problem that stops it, or failures on the way. -/
inductive CopyProblem where
  | file (problem : FileProblem)
  | notes (notes : List CopyNote)
deriving DecidableEq, Repr

namespace Disk

open FileTree (Flaw)

/-- The letters of the message that a source and its target are one file. -/
def sameFileNotes (source target : Path) : List CopyNote :=
  ("<DirEntry ".toList ++ Text.quoted source.name ++ "> and ".toList ++ Text.quoted target.toText ++
    " are the same file".toList).map .letter

def sameEntry (d : Disk) (p q : Path) : Bool :=
  match d.place p, d.place q with
  | .ok (.entry a _), .ok (.entry b _) => decide (a = b)
  | _, _ => false

/-- Puts the bytes and the time of a source into a file at a target. -/
def copyInto (d : Disk) (source target : Path) : Except FileProblem Disk :=
  match d.place source with
  | .ok (.entry _ (.file bytes stamp)) =>
    match d.place target with
    | .ok (.entry _ .directory) => .error (.flaw .isDirectory target.toText)
    | .ok (.entry loc (.file _ _)) =>
      .ok { d with tree := FileTree.put loc (.file bytes stamp) d.tree }
    | .ok (.vacant loc) => .ok { d with tree := FileTree.put loc (.file bytes stamp) d.tree }
    | .error e => .error e
  | .ok (.entry _ .directory) => .error (.flaw .isDirectory source.toText)
  | .ok (.vacant _) => .error (.flaw .missing source.toText)
  | .error e => .error e

/-- Copies a file with its time; into the target where that is a directory. -/
def copyFile (d : Disk) (source target : Path) : Disk × List CopyNote :=
  let inside := match d.isDirectory target with
    | .ok true => ⟨target.anchor, target.parts ++ [source.name]⟩
    | _ => target
  if d.sameEntry source inside then (d, sameFileNotes source inside)
  else match d.copyInto source inside with
    | .ok d => (d, [])
    | .error e => (d, [.failed source.toText target.toText e.message])

/-- Copies a directory; `depth` bounds how deep. The names are those that the source holds before the
target is made. -/
def copyTreeTo (d : Disk) (source target : Path) : Nat → Disk × Except CopyProblem Unit
  | 0 => (d, .error (.file (.flaw .nameTooLong target.toText)))
  | depth + 1 =>
    match d.list source with
    | .error e => (d, .error (.file e))
    | .ok names =>
      match d.ensureDirectories target with
      | (d, .error e) => (d, .error (.file e))
      | (d, .ok ()) =>
        let (d, notes) := names.foldl (fun (state : Disk × List CopyNote) name =>
          let (d, notes) := state
          let origin : Path := ⟨source.anchor, source.parts ++ [name]⟩
          let copy : Path := ⟨target.anchor, target.parts ++ [name]⟩
          match d.isDirectory origin with
          | .ok true =>
            match copyTreeTo d origin copy depth with
            | (d, .ok ()) => (d, notes)
            | (d, .error (.notes more)) => (d, notes ++ more)
            | (d, .error (.file e)) => (d, notes ++ [.failed origin.toText copy.toText e.message])
          | _ =>
            let (d, more) := d.copyFile origin copy
            (d, notes ++ more)) (d, [])
        (d, if notes.isEmpty then .ok () else .error (.notes notes))

def copyTree (d : Disk) (source target : Path) : Disk × Except CopyProblem Unit :=
  d.copyTreeTo source target (d.tree.length + 1)

/-- Copies the bytes of a file to a target that has to be no directory. -/
def copyBytes (d : Disk) (source target : Path) : Except FileProblem Disk :=
  match d.readBytes source with
  | .ok bytes => d.writeBytes target bytes
  | .error e => .error e

end Disk
end Sitewright
