import Sitewright.Build.Bundler
import Sitewright.Build.Output
import Sitewright.Template.VariableFile
/-!
# Builds

A build empties the output directory, materialises the pages, bundles them, and publishes them; the
temporary directories are removed whatever happens.
-/
set_option autoImplicit false

namespace Sitewright.Build

/-- What a build has made. -/
structure Built where
  routes : List Text
  outputs : List Path
  bundler : Text
  baseUrl : BaseAddress
deriving DecidableEq, Repr

def bundleAndPublish (site : Site) (bundler : Bundler) (artifacts : Artifacts) :
    Job (List Path) := do
  let _ ← bundler.bundle site artifacts
  publish site site.baseUrl

/-- The stages of a build behind the emptying of the output directory. -/
def runStages (site : Site) (tree : Variables) (bundler : Bundler) : Job Built := do
  match ← Job.attempt (materializeSite site tree) with
  | .error e =>
    cleanUp site none
    throw e
  | .ok artifacts =>
    let outputs ← Job.andFinally (bundleAndPublish site bundler artifacts)
      fun _ => cleanUp site (some artifacts)
    return ⟨artifacts.routes, outputs, bundler.name, site.baseUrl⟩

/-- Builds the site. Variables that are not given are read from their file, and a bundler that is not
given is that of the site. -/
def run (bundlers : Bundlers) (site : Site) (given : Option Variables)
    (bundler : Option Bundler) : Job Built := do
  let tree ← match given with
    | some tree => pure tree
    | none => Job.look (Variable.load site.variablesFile)
  let bundler ← match bundler with
    | some b => pure b
    | none => Job.look (Reading.ofExcept id (bundlers.find site.bundler))
  emptyOutput site
  runStages site tree bundler

end Sitewright.Build
