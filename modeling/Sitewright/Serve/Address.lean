import Sitewright.Text.Casing
import Sitewright.Text.Wildcard
import Sitewright.Page
/-!
# Requested paths

A requested path leads to a page or to a static file. Empty segments and those of dots are dropped, so
that no path leads out of its root, and hidden files and secrets are never served.
-/
set_option autoImplicit false

namespace Sitewright.Serve

/-! ## Safe paths -/

def isKept (segment : Text) : Bool :=
  !segment.isEmpty && segment != ['.'] && segment != ['.', '.']

/-- The path without empty segments and segments of dots. -/
def sanitize (path : Text) : Text :=
  Text.join ['/'] ((Text.splitOn '/' path).filter isKept)

def deniedNames : List Text :=
  [".env".toList, ".env.*".toList, "*.pem".toList, "*.crt".toList, "*.key".toList,
    "pageforge.yaml".toList]

/-- The path is never served: some segment is hidden, or the last one is the name of a secret. -/
def isDenied (path : Text) : Bool :=
  let segments := Text.splitOn '/' path
  segments.any (Text.startsWith ['.']) ||
    deniedNames.any fun name =>
      Wildcard.fits (Wildcard.ofText name) (Text.lower (segments.getLast?.getD []))

/-! ## Paths of pages -/

/-- The page that a path names: what stands between its first slash and the suffix `.html`, without
line breaks. One line break at the end is passed over. -/
def pageName? (path : Text) : Option Text :=
  let path := if Text.endsWith ".html\n".toList path then path.dropLast else path
  match path with
  | '/' :: rest =>
    let suffix := ".html".toList
    if Text.endsWith suffix rest then
      let name := rest.take (rest.length - suffix.length)
      if name.isEmpty || List.elem '\n' name then none else some name
    else none
  | _ => none

/-- The page that a path leads to; none where it leads to a static file. -/
def pageAt (site : Site) (path : Text) : Reading (Option Page) := do
  if path = ['/'] || path = "/index.html".toList then return some (← Page.make site site.homePage)
  else match (pageName? path).map sanitize with
    | some (c :: name) => return some (← Page.make site (c :: name))
    | _ => return none

/-! ## Reloading -/

def reloadPath : Text := "/__pageforge/reload".toList

def reloadClient : Text :=
  "<script>new EventSource(\"".toList ++ reloadPath ++
    "\").onmessage = function (e) \x7b if (JSON.parse(e.data).type === \"full-reload\") ".toList ++
    "location.reload(); \x7d;</script>".toList

/-- The page with the reload script at the end of its body, or at its own end. -/
def withReloadClient (page : Text) : Text :=
  let close := "</body>".toList
  match Text.cutAt? close page with
  | some (before, rest) => before ++ reloadClient ++ '\n' :: close ++ rest
  | none => page ++ reloadClient

end Sitewright.Serve
