import Sitewright.Assembly
import Sitewright.Build.Script
/-!
# Materialising pages

Before a build is bundled, every page is assembled into a file of the temporary directory, and the
script entries of the pages are made anew. Whatever goes wrong here is a failure of the build.
-/
set_option autoImplicit false

namespace Sitewright.Build

/-- What has been materialised: the page files and the script entries by route, and the directories
that are only needed during the build. -/
structure Artifacts where
  pages : Keyed Path
  scripts : Keyed Path
  tmpRoots : List Path
deriving DecidableEq, Repr

namespace Artifacts

def empty : Artifacts := ⟨[], [], []⟩

def routes (a : Artifacts) : List Text := Keyed.keys a.pages

end Artifacts

def pageFile (dir : Path) (route : Text) : Path := dir.join (route ++ ".html".toList)

/-- Makes the script entry of a page anew, if the page has one and it is still there. -/
def writeEntry (site : Site) (page : Page) (fragment : Text) : Job (Option Path) := do
  match page.script with
  | none => return none
  | some path =>
    if ← Job.ask (·.exists? path) then
      let script ← Job.look (entryScript site fragment)
      Job.writeText path script
      return some path
    else return none

/-- Materialises a page: its script entry, and its document in the temporary directory. -/
def materializePage (site : Site) (tree : Variables) (page : Page) : Job (Path × Option Path) := do
  let fragment ← Job.textOf page.fragment
  let entry ← writeEntry site page fragment
  let html ← Job.look (Assembly.assemble site tree page.name true fragment)
  let file := pageFile site.tmpRoot page.route
  Job.writeText file html
  return (file, entry)

/-- Materialises pages one after the other, each under its route. -/
def materializeAll (site : Site) (tree : Variables) : Keyed Page → Artifacts → Job Artifacts
  | [], made => return made
  | (route, page) :: rest, made => do
    let (file, entry) ← materializePage site tree page
    let scripts := match entry with
      | some path => Keyed.put route path made.scripts
      | none => made.scripts
    materializeAll site tree rest ⟨Keyed.put route file made.pages, scripts, made.tmpRoots⟩

def materialize (site : Site) (tree : Variables) (pages : Keyed Page) : Job Artifacts := do
  let made : Artifacts := ⟨[], [], [site.tmpRoot]⟩
  if pages.isEmpty then
    Job.note .warning ("No pages found under ".toList ++ site.pagesRoot.toText)
    return made
  else
    Job.changeBySteps (·.ensureDirectories site.tmpRoot)
    materializeAll site tree pages made

def materializeSite (site : Site) (tree : Variables) : Job Artifacts := do
  let pages ← Job.look (Page.discover site)
  materialize site tree pages

end Sitewright.Build
