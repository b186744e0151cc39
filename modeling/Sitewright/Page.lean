import Sitewright.Site.Basic
import Sitewright.Keyed
import Sitewright.Job
/-!
# Pages

Each directory under the pages root that holds a page fragment is a page. Its route is the name of
the directory, but for the home page, whose route is the root route.
-/
set_option autoImplicit false

namespace Sitewright

/-- A page: its route, the name of its directory, its fragment, and its script if it has one. -/
structure Page where
  route : Text
  name : Text
  fragment : Path
  script : Option Path
deriving DecidableEq, Repr

namespace Page

/-! ## Routes -/

def routeOf (site : Site) (name : Text) : Text :=
  if name = site.homePage then site.rootRoute else name

def nameOf (site : Site) (route : Text) : Text :=
  if route = site.rootRoute then site.homePage else route

def addressOf (site : Site) (route : Text) : Text :=
  if route = site.rootRoute then ['/'] else '/' :: route

/-! ## Registry -/

def make (site : Site) (name : Text) : Reading Page := do
  let dir := site.pagesRoot.join name
  let script := dir.join site.pageScript
  let hasScript ← Reading.ask (·.isFile script)
  return ⟨routeOf site name, name, dir.join site.pageFile, if hasScript then some script else none⟩

/-- The pages made one after the other, by route. -/
def makeAll (site : Site) (names : List Text) : Reading (Keyed Page) := do
  let pages ← names.mapM (make site)
  return Keyed.ofList (pages.map fun p => (p.route, p))

/-- The entry of the pages root is a directory that holds a page fragment. -/
def isPageDirectory (site : Site) (name : Text) : Reading Bool := do
  let dir : Path := ⟨site.pagesRoot.anchor, site.pagesRoot.parts ++ [name]⟩
  if ← Reading.ask (·.isDirectory dir) then Reading.ask (·.isFile (dir.join site.pageFile))
  else return false

/-- The pages of a site by route, in the order of their directories' names. -/
def discover (site : Site) : Reading (Keyed Page) := do
  let root := site.pagesRoot
  if ← Reading.ask (·.isDirectory root) then
    let names ← Reading.ask (·.list root)
    let pages ← names.filterMapM fun name => do
      if ← isPageDirectory site name then return some (← make site name) else return none
    return Keyed.ofList (pages.map fun p => (p.route, p))
  else
    Reading.note .warning ("Pages root ".toList ++ root.toText ++ " does not exist".toList)
    return []

end Page
end Sitewright
