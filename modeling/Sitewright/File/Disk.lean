import Sitewright.File.Tree
import Sitewright.Text.Newline
/-!
# Disks

A disk is a file tree with a working directory, from which relative paths start, and a clock that
gives each write its time. This file holds what single paths can be asked and what can be done to
them; each operation either gives a result or tells what is wrong, with the path as it was given.
-/
set_option autoImplicit false

namespace Sitewright

open FileTree (Flaw Place)

/-- A file tree, the directory that relative paths start from, and the number of writes so far. -/
structure Disk where
  tree : FileTree
  here : Location
  clock : Nat
deriving Repr

/-- What is wrong with a path. -/
inductive FileProblem where
  /-- The path leads to nothing that can be worked with. -/
  | flaw (flaw : Flaw) (path : Text)
  /-- The path holds a null character. -/
  | nulByte
deriving DecidableEq, Repr

namespace Disk

/-! ## Where a path leads -/

def start (d : Disk) : Anchor → Location
  | .here => d.here
  | _ => []

def place (d : Disk) (p : Path) : Except FileProblem Place :=
  if p.hasNul then .error .nulByte
  else
    let dir := d.start p.anchor
    match FileTree.entryAt dir d.tree with
    | some .directory =>
      match FileTree.walk d.tree dir p.parts with
      | .ok found => .ok found
      | .error flaw => .error (.flaw flaw p.toText)
    | _ => .error (.flaw .missing p.toText)

/-- The entry that a path leads to, none where it leads to nothing; only a name that is too long is a
problem. -/
def look (d : Disk) (p : Path) : Except FileProblem (Option Entry) :=
  match d.place p with
  | .ok (.entry _ e) => .ok (some e)
  | .ok (.vacant _) => .ok none
  | .error (.flaw .nameTooLong path) => .error (.flaw .nameTooLong path)
  | .error _ => .ok none

def exists? (d : Disk) (p : Path) : Except FileProblem Bool := (d.look p).map Option.isSome

def isFile (d : Disk) (p : Path) : Except FileProblem Bool :=
  (d.look p).map fun
    | some (.file _ _) => true
    | _ => false

def isDirectory (d : Disk) (p : Path) : Except FileProblem Bool :=
  (d.look p).map fun
    | some .directory => true
    | _ => false

/-! ## Reading -/

def readBytes (d : Disk) (p : Path) : Except FileProblem Bytes :=
  match d.place p with
  | .ok (.entry _ (.file bytes _)) => .ok bytes
  | .ok (.entry _ .directory) => .error (.flaw .isDirectory p.toText)
  | .ok (.vacant _) => .error (.flaw .missing p.toText)
  | .error e => .error e

/-- The names in the directory at a path, in ascending order. -/
def list (d : Disk) (p : Path) : Except FileProblem (List Text) :=
  match d.place p with
  | .ok (.entry loc .directory) => .ok (Text.sorted (FileTree.names loc d.tree))
  | .ok (.entry _ _) => .error (.flaw .notDirectory p.toText)
  | .ok (.vacant _) => .error (.flaw .missing p.toText)
  | .error e => .error e

/-! ## Changing -/

/-- Puts a file at a location; its time is that of this write. -/
def store (d : Disk) (loc : Location) (bytes : Bytes) : Disk :=
  { d with tree := FileTree.put loc (.file bytes (.write d.clock)) d.tree, clock := d.clock + 1 }

/-- Writes a file, new or in the place of an old one. -/
def writeBytes (d : Disk) (p : Path) (bytes : Bytes) : Except FileProblem Disk :=
  match d.place p with
  | .ok (.entry loc (.file _ _)) => .ok (d.store loc bytes)
  | .ok (.entry _ .directory) => .error (.flaw .isDirectory p.toText)
  | .ok (.vacant loc) => .ok (d.store loc bytes)
  | .error e => .error e

def makeDirectory (d : Disk) (p : Path) : Except FileProblem Disk :=
  match d.place p with
  | .ok (.vacant loc) => .ok { d with tree := FileTree.put loc .directory d.tree }
  | .ok (.entry _ _) => .error (.flaw .taken p.toText)
  | .error e => .error e

/-- Makes a directory, or leaves the one that stands there. -/
def ensureDirectory (d : Disk) (p : Path) : Except FileProblem Disk :=
  match d.makeDirectory p with
  | .ok d => .ok d
  | .error (.flaw flaw path) =>
    match d.isDirectory p with
    | .ok true => .ok d
    | .ok false => .error (.flaw flaw path)
    | .error e => .error e
  | .error e => .error e

/-- Makes a directory with those above it, as far as they are missing; `depth` bounds how many. What
has been made stays even where a later step fails. -/
def ensureDirectoriesTo (d : Disk) (p : Path) : Nat → Disk × Except FileProblem Unit
  | 0 =>
    match d.ensureDirectory p with
    | .ok d => (d, .ok ())
    | .error e => (d, .error e)
  | depth + 1 =>
    match d.makeDirectory p with
    | .error (.flaw .missing _) =>
      match d.ensureDirectoriesTo p.parent depth with
      | (d, .error e) => (d, .error e)
      | (d, .ok ()) =>
        match d.ensureDirectory p with
        | .ok d => (d, .ok ())
        | .error e => (d, .error e)
    | _ =>
      match d.ensureDirectory p with
      | .ok d => (d, .ok ())
      | .error e => (d, .error e)

def ensureDirectories (d : Disk) (p : Path) : Disk × Except FileProblem Unit :=
  d.ensureDirectoriesTo p p.parts.length

def removeDirectory (d : Disk) (p : Path) : Except FileProblem Disk :=
  match d.place p with
  | .ok (.entry loc .directory) =>
    if FileTree.isEmptyDir loc d.tree then .ok { d with tree := FileTree.erase loc d.tree }
    else .error (.flaw .notEmpty p.toText)
  | .ok (.entry _ _) => .error (.flaw .notDirectory p.toText)
  | .ok (.vacant _) => .error (.flaw .missing p.toText)
  | .error e => .error e

def emptyAt (d : Disk) (loc : Location) : Disk :=
  { d with tree := d.tree.filter fun item => !(FileTree.isBelow loc item.1 && item.1 != loc) }

/-- Removes a directory and all below it: first what it holds, then the directory, which its path
need no longer lead to. -/
def removeTree (d : Disk) (p : Path) : Disk × Except FileProblem Unit :=
  match d.place p with
  | .ok (.entry loc .directory) =>
    let d := d.emptyAt loc
    match d.removeDirectory p with
    | .ok d => (d, .ok ())
    | .error e => (d, .error e)
  | .ok (.entry _ _) => (d, .error (.flaw .notDirectory p.toText))
  | .ok (.vacant _) => (d, .error (.flaw .missing p.toText))
  | .error e => (d, .error e)

end Disk

/-! ## Messages -/

def FileTree.Flaw.number : FileTree.Flaw → Nat
  | .missing => 2
  | .taken => 17
  | .notDirectory => 20
  | .isDirectory => 21
  | .nameTooLong => 36
  | .notEmpty => 39

def FileTree.Flaw.words : FileTree.Flaw → Text
  | .missing => "No such file or directory".toList
  | .taken => "File exists".toList
  | .notDirectory => "Not a directory".toList
  | .isDirectory => "Is a directory".toList
  | .nameTooLong => "File name too long".toList
  | .notEmpty => "Directory not empty".toList

def FileProblem.message : FileProblem → Text
  | .flaw f path =>
    "[Errno ".toList ++ Integer.ofNat f.number ++ "] ".toList ++ f.words ++ ": ".toList ++
      Text.quoted path
  | .nulByte => "embedded null byte".toList

end Sitewright
