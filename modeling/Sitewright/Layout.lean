import Sitewright.Html.Tag
import Sitewright.Site.Basic
import Sitewright.Job
/-!
# Layouts

A page is a fragment with a head and a body of its own. The layout is the shell that all pages share:
the fragment's head goes to the end of the shell's head, and its body takes the place of the shell's
main region.
-/
set_option autoImplicit false

namespace Sitewright.Layout

/-- The inside of a fragment's head, and the fragment without that head. -/
def splitFragment (fragment : Text) : Text × Text :=
  match Scan.first? Html.head fragment with
  | some (before, inner, rest) => (Text.trim inner, Text.trim (before ++ rest))
  | none => ([], Text.trim fragment)

/-- Recognises a reference to a file beside the page; it means the attribute and the file. -/
def localReference : Recognizer (Text × Text) := fun s =>
  ["src".toList, "href".toList].findSome? fun attr =>
    match Text.after? (attr ++ "=\"./".toList) s with
    | none => none
    | some rest =>
      let file := rest.takeWhile (· ≠ '"')
      match file, rest.drop file.length with
      | _ :: _, '"' :: _ => some ((attr, file), attr.length + 4 + file.length + 1)
      | _, _ => none

/-- The head of a page with its references to files beside the page made absolute. -/
def rebaseHead (site : Site) (page head : Text) : Text :=
  Scan.substitute localReference (fun found _ =>
    found.1 ++ "=\"".toList ++ site.pageUrl page ++ found.2 ++ ['"']) head

/-- The shell with a head at the end of its own, and with a body in its main region. -/
def merge (shell head body : Text) : Text :=
  let shell :=
    if head.isEmpty then shell
    else Html.replaceFirst Html.headEnd (Html.headLine head ++ Html.closeHead) shell
  Html.replaceFirst Html.main ("<main>\n        ".toList ++ body ++ "\n    </main>".toList) shell

/-- Puts a fragment into the layout. Where the layout cannot be read this fails if it has to be there
(`strict`), and leaves the fragment as it is with a notice otherwise. -/
def compose (site : Site) (page : Text) (strict : Bool) (fragment : Text) : Reading Text := do
  match ← Reading.attempt (Reading.textOf site.layoutFile) with
  | .ok shell =>
    let (head, body) := splitFragment fragment
    return merge shell (rebaseHead site page head) body
  | .error e =>
    if !e.isOfFiles then throw e
    let path := site.layoutFile.toText
    if strict then throw (.layoutUnreadable path)
    Reading.note .warning ("Layout ".toList ++ path ++ " unavailable (".toList ++ e.message ++
      "); using raw fragment".toList)
    return fragment

end Sitewright.Layout
