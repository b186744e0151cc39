import Sitewright.Html.Tag
import Sitewright.Site.Basic
import Sitewright.Job
/-!
# Components

A component is a directory that holds markup and may hold a stylesheet and a script. A page refers
to it by a token, the path of the directory, in a placeholder `\x7b\x7bnamespace/path\x7d\x7d`.
-/
set_option autoImplicit false

namespace Sitewright

/-- A component: its token and its files. -/
structure Component where
  token : Text
  markup : Path
  stylesheet : Option Path
  script : Option Path
deriving DecidableEq, Repr

namespace Component

/-! ## References -/

/-- Recognises a reference to a component of a namespace; it means what stands between the braces. -/
def reference (space : Text) : Recognizer Text
  | '\x7b' :: '\x7b' :: s =>
    match Text.after? (space ++ ['/']) s with
    | none => none
    | some rest =>
      let path := rest.takeWhile (· ≠ '\x7d')
      match rest.drop path.length with
      | '\x7d' :: '\x7d' :: _ =>
        if path.isEmpty then none
        else
          let raw := space ++ '/' :: path
          some (raw, raw.length + 4)
      | _ => none
  | _ => none

/-- What stands between the braces of the references in a text, in order. -/
def references (site : Site) (s : Text) : List Text :=
  Scan.marks (reference site.componentNamespace) s

/-- The tokens that a text refers to, in order. -/
def tokens (site : Site) (s : Text) : List Text := (references site s).map Text.trim

/-! ## Files -/

/-- The path, where a file stands there. -/
def fileAt? (path : Path) : Reading (Option Path) := do
  return if ← Reading.ask (·.isFile path) then some path else none

/-- The component of a token; none where its markup is no file. -/
def load (site : Site) (token : Text) : Reading (Option Component) := do
  let dir := site.componentRoot token
  match ← fileAt? (dir.join site.componentMarkup) with
  | none => return none
  | some markup =>
    let stylesheet ← fileAt? (dir.join site.componentStylesheet)
    let script ← fileAt? (dir.join site.componentScript)
    return some ⟨token, markup, stylesheet, script⟩

def stylesheetTag (site : Site) (token : Text) : Text :=
  "<link rel=\"stylesheet\" href=\"".toList ++ site.componentUrl token site.componentStylesheet ++
    "\">".toList

def scriptTag (site : Site) (token : Text) : Text :=
  "<script type=\"module\" src=\"".toList ++ site.componentUrl token site.componentScript ++
    "\"></script>".toList

/-- The tags that a component adds to the head of a page: its stylesheet before its script. -/
def headTags (site : Site) (c : Component) : List Text :=
  (if c.stylesheet.isSome then [stylesheetTag site c.token] else []) ++
    (if c.script.isSome then [scriptTag site c.token] else [])

/-- The notice of a component whose markup cannot be read. -/
def unreadable (token why : Text) : Text :=
  "Could not read component ".toList ++ token ++ ": ".toList ++ why

/-- The markup of a component; none, with a notice, where it cannot be read. -/
def markupText (c : Component) : Reading (Option Text) := do
  match ← Reading.attempt (Reading.textOf c.markup) with
  | .ok s => return some s
  | .error e =>
    if e.isOfFiles then
      Reading.note .warning (unreadable c.token e.message)
      return none
    else throw e

/-- A number of characters that no nesting of distinct tokens exceeds: each of them is written in the
text or in some file. -/
def nestingBound (s : Text) : Reading Nat := do
  let disk ← read
  return disk.tree.foldl (fun n item =>
    match item.2 with
    | .file bytes _ => n + bytes.length
    | .directory => n) (s.length + 1)

end Component
end Sitewright
