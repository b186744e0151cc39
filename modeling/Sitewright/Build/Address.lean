import Sitewright.Html.Tag
import Sitewright.Site.Basic
/-!
# Addresses in built pages

In a built page, references to static directories are rooted at the base address of the site, and
every page links the shared stylesheet. While pages are bundled, references that begin at the root of
the site are replaced by references to bundled files.
-/
set_option autoImplicit false

namespace Sitewright.Build

/-! ## Base address -/

def normalizeBase (base : Text) : Text :=
  if Text.endsWith ['/'] base then base.dropLast else base

def addressAttributes : List Text := ["href".toList, "src".toList]

/-- A reference to a file of a static directory: its attribute and its quote. -/
structure StaticReference where
  attr : Text
  quote : Char
deriving DecidableEq, Repr

/-- What follows the directory and its slash in a text that begins with them, perhaps behind a dot and
a slash. -/
def afterDirectory? (dir s : Text) : Option Text :=
  let direct := Text.after? (dir ++ ['/']) s
  match s with
  | '.' :: '/' :: rest => (Text.after? (dir ++ ['/']) rest).or direct
  | _ => direct

/-- Recognises a reference to a static directory, up to the slash behind the directory. -/
def staticReference (dir : Text) : Recognizer StaticReference := fun s =>
  addressAttributes.findSome? fun attr => do
    let rest ← Text.after? attr s
    match rest.dropWhile Text.isBlank with
    | '=' :: rest =>
      match rest.dropWhile Text.isBlank with
      | quote :: rest =>
        if quote = '"' || quote = '\'' then
          let behind ← afterDirectory? dir rest
          return (⟨attr, quote⟩, s.length - behind.length)
        else none
      | [] => none
    | _ => none

/-- The text with the references to one static directory rooted at a base. -/
def rootDirectory (base dir s : Text) : Text :=
  Scan.substitute (staticReference dir)
    (fun found _ => found.attr ++ '=' :: found.quote :: base ++ '/' :: dir ++ ['/']) s

/-- The text with the references to the static directories rooted at the base address; where the base
is empty they stay as they are. -/
def rewriteAddresses (base : Text) (dirs : List Text) (s : Text) : Text :=
  let base := normalizeBase base
  if base.isEmpty then s else dirs.foldl (fun s dir => rootDirectory base dir s) s

/-! ## Shared stylesheet -/

/-- The tag that links the shared stylesheet of a build. -/
def globalStyleTag (site : Site) (base : Text) : Text :=
  let base := normalizeBase base
  "<link rel=\"stylesheet\" crossorigin href=\"".toList ++ (if base.isEmpty then ['.'] else base) ++
    "/assets/".toList ++ site.globalStyleFile ++ "\">".toList

/-- The page with a link to the shared stylesheet, where it does not name that stylesheet yet. -/
def ensureGlobalStyle (site : Site) (base s : Text) : Text :=
  if Text.contains site.globalStyleFile s then s
  else Html.appendToHead s (globalStyleTag site base)

/-! ## Rooted references -/

/-- A reference that begins at the root of the site: its attribute and its address. -/
structure RootedReference where
  attr : Text
  address : Text
deriving DecidableEq, Repr

/-- Recognises a reference in double quotes that begins with one slash. -/
def rootedReference : Recognizer RootedReference := fun s =>
  addressAttributes.findSome? fun attr => do
    let rest ← Text.after? (attr ++ "=\"/".toList) s
    match rest with
    | c :: _ =>
      if c = '"' || c = '/' then none
      else
        let path := rest.takeWhile (· ≠ '"')
        match rest.drop path.length with
        | '"' :: _ => some (⟨attr, '/' :: path⟩, attr.length + 3 + path.length + 1)
        | _ => none
    | [] => none

end Sitewright.Build
