import Sitewright.Build.CopyBundler
import Sitewright.Json.Writer
import Sitewright.Shell.Run
/-!
# The bundler that runs a command

A command is run in the project. It is told where the materialised pages are and where the results
are to be put; then each page has to be in the directory of bundled pages.
-/
set_option autoImplicit false

namespace Sitewright.Build

/-- The variables that a command gets besides those of the environment: the pages by route, and the
output directory. -/
def commandVariables (site : Site) (artifacts : Artifacts) (environment : Keyed Text) : Keyed Text :=
  let inputs := Json.Style.spaced.write (.object (artifacts.pages.map fun p => (p.1, .string p.2.toText)))
  Keyed.put "PAGEFORGE_OUT_DIR".toList site.outRoot.toText
    (Keyed.put "PAGEFORGE_INPUTS".toList inputs environment)

/-- The pages of the artifacts that have been bundled; a notice is written for each of the others. -/
def bundledPages (site : Site) : List Text → Keyed Path → Job (Keyed Path)
  | [], made => return made
  | route :: rest, made => do
    let file := pageFile site.bundledRoot route
    if ← Job.ask (·.exists? file) then bundledPages site rest (Keyed.put route file made)
    else
      Job.note .warning ("Bundler produced no output for ".toList ++ route)
      bundledPages site rest made

/-- Runs a command in the project; its output has to be text. -/
def runCommand (site : Site) (values : Keyed Text) (command : Text) : Job Unit := do
  if List.elem '\x00' command then throw (.file .nulByte)
  let w ← get
  let outcome := Shell.runIn (site.root.resolve w.disk.here) values command w.disk
  set { w with disk := outcome.disk }
  match Utf8.decode outcome.output, Utf8.decode outcome.errors with
  | .error e, _ => throw (.notUtf8 e)
  | _, .error e => throw (.notUtf8 e)
  | .ok _, .ok errors =>
    if outcome.status ≠ 0 then
      throw (.commandFailed outcome.status (Text.trim (Newline.normalize errors)))

/-- The command to run: the given one, or that of the site. -/
def commandOf (given : Option Text) (site : Site) : Option Text :=
  match given with
  | some (c :: cs) => some (c :: cs)
  | _ =>
    match site.bundleCommand with
    | some (c :: cs) => some (c :: cs)
    | _ => none

def bundleByCommand (environment : Keyed Text) (given : Option Text) (site : Site)
    (artifacts : Artifacts) : Job Bundled := do
  match commandOf given site with
  | none => throw .noCommand
  | some command =>
    runCommand site (commandVariables site artifacts environment) command
    let pages ← bundledPages site artifacts.routes []
    return ⟨"command".toList, pages, []⟩

/-- The bundler that runs a command, in an environment. -/
def commandBundler (environment : Keyed Text) (given : Option Text) : Bundler :=
  ⟨"command".toList, bundleByCommand environment given⟩

def standardBundlers (environment : Keyed Text) : Bundlers :=
  [("copy".toList, copyBundler), ("command".toList, commandBundler environment none)]

end Sitewright.Build
