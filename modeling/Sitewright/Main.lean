import Sitewright.Build.CommandBundler
import Sitewright.Command.Run
import Sitewright.File.Difference
import Sitewright.Serve.Server
/-!
# The command line

The names of the project's files come on standard input, one a line; a name that ends in a slash is that
of an empty directory, and an empty line ends the list. The command works on these files, and what it has
changed is written back. The development server then answers requests, one a line: a method and a target.
-/
set_option autoImplicit false

namespace Sitewright.Program

/-- A line of standard input without its end; none at the end of the input. -/
def readLine? (input : IO.FS.Stream) : IO (Option Text) := do
  let line ← input.getLine
  if line.isEmpty then return none
  else return some (Text.trimEnd (fun c => c = '\n' || c = '\r') line.toList)

/-- Reads the files whose names come from a stream. -/
partial def loadFiles (input : IO.FS.Stream) (disk : Disk) : IO Disk := do
  match ← readLine? input with
  | none | some [] => return disk
  | some name =>
    let path := Path.ofText name
    if Text.endsWith ['/'] name then
      loadFiles input (disk.ensureDirectories path).1
    else
      let bytes ← IO.FS.readBinFile (String.ofList name)
      let disk := (disk.ensureDirectories path.parent).1
      match disk.writeBytes path bytes.toList with
      | .ok disk => loadFiles input disk
      | .error _ => loadFiles input disk

def carryOut (change : FileTree.Change) : IO Unit := do
  let name := fun (loc : Location) => String.ofList (Path.ofLocation loc).toText
  match change with
  | .removeFile loc => IO.FS.removeFile (name loc)
  | .removeDirectory loc => IO.FS.removeDirAll (name loc)
  | .makeDirectory loc => IO.FS.createDirAll (name loc)
  | .writeFile loc bytes => IO.FS.writeBinFile (name loc) (ByteArray.mk bytes.toArray)

def print (seconds : Text) (part : Command.Printed) : IO Unit := do
  match part with
  | .text s => IO.print (String.ofList s)
  | .elapsed => IO.print (String.ofList seconds)
  | .row cells => IO.println (String.ofList (Text.join ['\t'] cells))

def replyText : Serve.Reply → Text
  | .page html => "200\n".toList ++ html
  | .file bytes => "200\n".toList ++ Utf8.decodeLossy bytes
  | .stream | .methods => "200\n".toList
  | .redirect address => "308 ".toList ++ address
  | .status code => Integer.ofNat code

/-- Answers the requests of a stream. -/
partial def answerRequests (input : IO.FS.Stream) (disk : Disk) (site : Site) (tree : Variables) :
    IO Unit := do
  match ← readLine? input with
  | none => return ()
  | some line =>
    let (method, target) := (Text.cutAt? [' '] line).getD (line, ['/'])
    match (Reading.outcome (Serve.respond site tree (.ofText method) target) disk []).1 with
    | .ok reply => IO.println (String.ofList (replyText reply))
    | .error e => IO.eprintln (String.ofList e.message)
    answerRequests input disk site tree

def serve (input : IO.FS.Stream) (disk : Disk) (env : Environment) (c : Command) : IO Unit := do
  let root := Path.ofLocation ((Path.ofText c.root).resolve disk.here)
  let prepared : Reading (Site × Variables) := do
    let settings ← Settings.load root c.config env
    let site ← Reading.ofExcept id (settings.site root)
    return (site, ← Variable.load site.variablesFile)
  match (prepared.outcome disk []).1 with
  | .ok (site, tree) => answerRequests input disk site tree
  | .error e => IO.eprintln (String.ofList e.message)

/-- Runs a command on the files whose names come from standard input. -/
def runCommand (c : Command) : IO UInt32 := do
  let started ← IO.monoMsNow
  let input ← IO.getStdin
  let here := (Path.ofText (toString (← IO.currentDir)).toList).parts
  let empty : Disk := ⟨[([], .directory)], here, 0⟩
  let disk ← loadFiles input (empty.ensureDirectories (Path.ofLocation here)).1
  let productionUrl := (← IO.getEnv "PROD_URL").map String.toList
  let port := (← IO.getEnv "PAGEFORGE_PORT").map String.toList
  let env : Environment := ⟨productionUrl, port⟩
  let (result, after) := (Command.run (Build.standardBundlers []) env c).run ⟨disk, []⟩
  (FileTree.changes disk.tree after.disk.tree).forM carryOut
  after.log.forM fun notice => IO.eprintln (String.ofList notice.text)
  match result with
  | .error e =>
    IO.eprintln (String.ofList e.message)
    return 1
  | .ok report =>
    let hundredths := ((← IO.monoMsNow) - started) / 10
    let seconds := Integer.ofNat (hundredths / 100) ++ '.' :: Integer.padded 2 (hundredths % 100)
    report.output.forM (print seconds)
    IO.eprint (String.ofList report.errors)
    if report.listening.isSome then serve input after.disk env c
    return report.status.toUInt32

end Sitewright.Program

def main (arguments : List String) : IO UInt32 := do
  match Sitewright.Command.parse (arguments.map String.toList) with
  | .ok c => Sitewright.Program.runCommand c
  | .error .help =>
    IO.println "usage: sitewright [-v] [--root DIR] [--config FILE] build|dev|pages|render ..."
    return 0
  | .error .misuse =>
    IO.eprintln "usage: sitewright [-v] [--root DIR] [--config FILE] build|dev|pages|render ..."
    return 2
