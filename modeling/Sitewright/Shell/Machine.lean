import Sitewright.File.Copy
import Sitewright.Keyed
/-!
# The state of a shell

A shell works on a disk and keeps variables. What its commands write goes into buffers (the two
outputs of the script first, then one for each pipe and each output that is put into a word) or into
files.
-/
set_option autoImplicit false

namespace Sitewright.Shell

/-- Where a command writes to. -/
inductive Sink where
  | buffer (n : Nat)
  | file (loc : Location)
  | nowhere
deriving DecidableEq, Repr

/-- What a command reads, and where it writes its output and its errors to. -/
structure Channels where
  input : Bytes
  output : Sink
  errors : Sink
deriving Repr

/-- The state of a shell. -/
structure Machine where
  disk : Disk
  /-- The name that the shell has been called by. -/
  called : Text
  values : Keyed Text
  /-- The variables that commands get. -/
  exported : List Text
  buffers : List Bytes
  status : Nat
  /-- The shell ends where a command fails. -/
  strict : Bool
  /-- A command may fail here although the shell is strict. -/
  guarded : Bool
  /-- The shell ends where a variable that is not set is used. -/
  careful : Bool
  /-- The shell has ended. -/
  ended : Bool
  /-- The signal that has ended the shell. -/
  signal : Option Nat
deriving Repr

namespace Machine

def start (disk : Disk) (values : Keyed Text) : Machine :=
  ⟨disk, "/bin/sh".toList, values, Keyed.keys values, [[], []], 0, false, false, false, false, none⟩

def emit (m : Machine) (sink : Sink) (bytes : Bytes) : Machine :=
  match sink with
  | .buffer n => { m with buffers := m.buffers.set n (m.buffers.getD n [] ++ bytes) }
  | .nowhere => m
  | .file loc =>
    match FileTree.entryAt loc m.disk.tree with
    | some (.file old _) => { m with disk := m.disk.store loc (old ++ bytes) }
    | _ => m

def write (m : Machine) (sink : Sink) (s : Text) : Machine := m.emit sink (Utf8.encode s)

def newBuffer (m : Machine) : Nat × Machine :=
  (m.buffers.length, { m with buffers := m.buffers ++ [[]] })

def buffer (m : Machine) (n : Nat) : Bytes := m.buffers.getD n []

def withStatus (m : Machine) (status : Nat) : Machine := { m with status := status }

/-- The shell after a command, whose failure ends a strict shell. -/
def settled (m : Machine) : Machine :=
  if m.strict && !m.guarded && m.status ≠ 0 then { m with ended := true } else m

def forCommand (m : Machine) : Machine :=
  { m with values := m.values.filter fun v => List.elem v.1 m.exported, called := "sh".toList,
           strict := false, careful := false }

def valueAt (m : Machine) (name : Text) : Option Text := Keyed.get? name m.values

/-- What is left of a shell of its own when it has ended: files and outputs. -/
def afterSubshell (outer inner : Machine) : Machine :=
  { outer with
    disk := { inner.disk with here := outer.disk.here }
    buffers := inner.buffers
    status := inner.status
    signal := inner.signal
    ended := outer.ended || inner.signal.isSome }

end Machine
end Sitewright.Shell
