import Sitewright.Component.Collection
/-!
# Entry scripts

A page with a script entry gets one script made of the scripts of all components that it uses. Each
of them waits for the document by itself; that wrapper is taken off, and one is put around them all.
-/
set_option autoImplicit false

namespace Sitewright.Build

/-- What follows the arguments of a wrapper, up to the brace that opens its body. -/
def afterArrow? (s : Text) : Option Text := do
  let s ← Text.after? "()".toList (s.dropWhile Text.isBlank)
  let s ← Text.after? "=>".toList (s.dropWhile Text.isBlank)
  Text.after? ['\x7b'] (s.dropWhile Text.isBlank)

/-- What follows the opening of a wrapper in a text that begins with one; its quotes may differ. -/
def afterOpening? (s : Text) : Option Text := do
  let s ← Text.after? "document.addEventListener(".toList s
  match s with
  | q :: s =>
    if q = '"' || q = '\'' then
      let s ← Text.after? "DOMContentLoaded".toList s
      match s with
      | q :: ',' :: s => if q = '"' || q = '\'' then afterArrow? s else none
      | _ => none
    else none
  | [] => none

/-- What follows the end of a wrapper in a text that begins with its closing brace. -/
def afterEnd? (s : Text) : Option Text := do
  let s ← Text.after? ['\x7d'] s
  let s ← Text.after? [')'] (s.dropWhile Text.isBlank)
  match s with
  | ';' :: s => return s
  | s => return s

/-- The body of a wrapper, up to the first brace that may end it, and what follows the end; `body`
holds what has been read, in reverse. -/
def bodyFrom (body : Text) : Text → Option (Text × Text)
  | [] => none
  | c :: s =>
    match afterEnd? (c :: s) with
    | some rest => some (body.reverse, rest)
    | none => bodyFrom (c :: body) s

/-- Recognises a wrapper; it means its body. -/
def readyWrapper : Recognizer Text := fun s => do
  let inside ← afterOpening? s
  let (body, rest) ← bodyFrom [] inside
  return (body, s.length - rest.length)

/-- The script with every wrapper replaced by its body. -/
def unwrapReady (script : Text) : Text := Scan.substitute readyWrapper (fun body _ => body) script

/-- The script that runs some statements when the document is ready. -/
def readyScript (statements : Text) : Text :=
  "document.addEventListener(\"DOMContentLoaded\", () => \x7b\n".toList ++ statements ++
    "\n\x7d);\n".toList

/-- The unwrapped script of a component, on lines of its own; empty where it has none. -/
def scriptPart (c : Component) : Reading Text := do
  match c.script with
  | none => return []
  | some path =>
    let script ← Reading.textOf path
    return '\n' :: Text.trim (unwrapReady script) ++ ['\n']

/-- The entry script of a page: the scripts of its components, one after the other. -/
def entryScript (site : Site) (fragment : Text) : Reading Text := do
  let components ← Component.collect site fragment
  let parts ← components.mapM scriptPart
  return readyScript (Text.trim parts.flatten)

end Sitewright.Build
