import Sitewright.Failure
/-!
# Jobs

A job works on a workspace, that is a disk and a log of notices; what it has done stays done where it
fails. A reading job looks at a disk, may write notices and may fail, and changes no file: the type
says so.
-/
set_option autoImplicit false

namespace Sitewright

/-- How serious a notice is. -/
inductive Level where
  | warning
  | error
deriving DecidableEq, Repr

/-- A line of the log. -/
structure Notice where
  level : Level
  text : Text
deriving DecidableEq, Repr

/-- The notices so far, the latest last. -/
abbrev Log := List Notice

/-- A disk and the notices written so far. -/
structure Workspace where
  disk : Disk
  log : Log
deriving Repr

abbrev Reading := ReaderT Disk (ExceptT Failure (StateM Log))

abbrev Job := ExceptT Failure (StateM Workspace)

/-! ## Reading -/

namespace Reading

def note (level : Level) (text : Text) : Reading Unit :=
  fun _ => ExceptT.lift (modify fun log => log ++ [⟨level, text⟩])

def ask {α : Type} (question : Disk → Except FileProblem α) : Reading α := do
  match question (← read) with
  | .ok a => return a
  | .error e => throw (.file e)

/-- Turns what a pure computation gives into a step of a job. -/
def ofExcept {ε α : Type} (cause : ε → Failure) (result : Except ε α) : Reading α :=
  match result with
  | .ok a => pure a
  | .error e => throw (cause e)

/-- What a reading job gives as a value: its result and whether it failed. The notices stay. -/
def attempt {α : Type} (job : Reading α) : Reading (Except Failure α) :=
  fun disk => ExceptT.mk do
    let result ← (job disk).run
    return .ok result

/-- The text of the file at a path, with its line ends normalised. -/
def textOf (path : Path) : Reading Text := do
  let bytes ← ask (·.readBytes path)
  match Utf8.decode bytes with
  | .ok s => return Newline.normalize s
  | .error e => throw (.notUtf8 e)

/-- The result of a reading job on a disk, and the notices it adds to a log. -/
def outcome {α : Type} (job : Reading α) (disk : Disk) (log : Log) : Except Failure α × Log :=
  (job disk).run log

end Reading

/-! ## Working -/

namespace Job

def look {α : Type} (job : Reading α) : Job α :=
  fun w =>
    let (result, log) := job.outcome w.disk w.log
    (result, { w with log := log })

def note (level : Level) (text : Text) : Job Unit := look (Reading.note level text)

def ask {α : Type} (question : Disk → Except FileProblem α) : Job α := look (Reading.ask question)

/-- Changes the disk, or fails and leaves it as it is. -/
def change (step : Disk → Except FileProblem Disk) : Job Unit := do
  let w ← get
  match step w.disk with
  | .ok disk => set { w with disk := disk }
  | .error e => throw (.file e)

/-- Changes the disk in several steps, of which the first stay done where a later one fails. -/
def changeBySteps (steps : Disk → Disk × Except FileProblem Unit) : Job Unit := do
  let w ← get
  let (disk, result) := steps w.disk
  set { w with disk := disk }
  match result with
  | .ok () => return ()
  | .error e => throw (.file e)

/-- Turns what a pure computation gives into a step of a job. -/
def ofExcept {α : Type} (result : Except Failure α) : Job α :=
  match result with
  | .ok a => pure a
  | .error e => throw e

def textOf (path : Path) : Job Text := look (Reading.textOf path)

def writeText (path : Path) (s : Text) : Job Unit := change (·.writeBytes path (Utf8.encode s))

/-- What a job gives as a value. What it has done stays done. -/
def attempt {α : Type} (job : Job α) : Job (Except Failure α) :=
  fun w =>
    let (result, w) := job.run w
    (.ok result, w)

/-- Does one job and, whatever becomes of it, another one behind it. A failure of the second one
counts; otherwise that of the first. -/
def andFinally {α : Type} (job : Job α) (last : Except Failure α → Job Unit) : Job α := do
  let result ← attempt job
  last result
  match result with
  | .ok a => return a
  | .error e => throw e

end Job
end Sitewright
