import Sitewright.Build.Address
import Sitewright.Build.Artifacts
/-!
# The output directory

A build begins with an empty output directory. When the pages have been bundled, each is moved to the
top of it with its addresses rooted at the base address of the site; then the temporary directories
are removed.
-/
set_option autoImplicit false

namespace Sitewright.Build

def isPageName (name : Text) : Bool := Text.endsWith ".html".toList name

def baseText : BaseAddress → Except Failure Text
  | .text s => .ok s
  | .ofType typeName => .error (.badBaseAddress typeName)

/-- Writes a bundled page to the top of the output directory. -/
def publishPage (site : Site) (base : BaseAddress) (name : Text) : Job Path := do
  let dir := site.bundledRoot
  let html ← Job.textOf ⟨dir.anchor, dir.parts ++ [name]⟩
  let base ← Job.ofExcept (baseText base)
  let html := rewriteAddresses base site.staticDirs html
  let html := ensureGlobalStyle site base html
  let target : Path := ⟨site.outRoot.anchor, site.outRoot.parts ++ [name]⟩
  Job.writeText target html
  return target

/-- Writes every bundled page to the top of the output directory, in the order of their names. -/
def publish (site : Site) (base : BaseAddress) : Job (List Path) := do
  let dir := site.bundledRoot
  if ← Job.ask (·.isDirectory dir) then
    let names ← Job.ask (·.list dir)
    (names.filter isPageName).mapM (publishPage site base)
  else
    Job.note .warning ("No bundled pages under ".toList ++ dir.toText)
    return []

/-- Removes a directory and all below it, if it is there; where this fails, with a notice only. -/
def discard (path : Path) : Job Unit := do
  if ← Job.ask (·.exists? path) then
    match ← Job.attempt (Job.changeBySteps (·.removeTree path)) with
    | .ok () => return ()
    | .error e =>
      if e.isOfFiles then
        Job.note .warning ("Could not remove ".toList ++ path.toText ++ ": ".toList ++ e.message)
      else throw e

/-- The paths with those of a second list behind them, each path once. -/
def addMissing (paths : List Path) : List Path → List Path
  | [] => paths
  | p :: rest => addMissing (if p ∈ paths then paths else paths ++ [p]) rest

/-- The directories that are only needed during a build. -/
def temporaryRoots (site : Site) (artifacts : Option Artifacts) : List Path :=
  addMissing [site.bundledRoot, site.tmpRoot] ((artifacts.map Artifacts.tmpRoots).getD [])

/-- Removes the directories that are only needed during a build. -/
def cleanUp (site : Site) (artifacts : Option Artifacts) : Job Unit :=
  (temporaryRoots site artifacts).forM discard

/-- One location lies above another one, or is that one. -/
def holds (above loc : Location) : Bool := FileTree.isBelow above loc

/-- Removes the output directory of an earlier build. An output directory that holds the project is
refused. -/
def emptyOutput (site : Site) : Job Unit := do
  let disk := (← get).disk
  if site.outRoot.hasNul then throw (.file .nulByte)
  let out := site.outRoot.resolve disk.here
  let path := Path.ofLocation out
  if holds out (site.root.resolve disk.here) then throw (.outputHoldsProject path.toText)
  if ← Job.ask (·.exists? path) then Job.changeBySteps (·.removeTree path)

end Sitewright.Build
