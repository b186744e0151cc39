import Sitewright.Assembly
import Sitewright.Serve.Address
import Sitewright.Serve.Target
import Sitewright.Serve.Stream
/-!
# The development server

A request is answered with an assembled page, with a static file, with the stream of reloads, or with
a status. A page that cannot be assembled is shown as its fragment, with a notice; whatever else fails
while a request is handled becomes a status, so that no failure gets past a request.
-/
set_option autoImplicit false

namespace Sitewright.Serve

/-- What a request asks to be done. -/
inductive Method where
  | get
  | head
  | options
  | other
deriving DecidableEq, Repr

/-- The method of a word, in any letter case. -/
def Method.ofText (s : Text) : Method :=
  let s := s.map Char.toUpper
  if s = "GET".toList then .get
  else if s = "HEAD".toList then .head
  else if s = "OPTIONS".toList then .options
  else .other

/-- The answer to a request. -/
inductive Reply where
  /-- An assembled page. -/
  | page (html : Text)
  /-- A static file. -/
  | file (bytes : Bytes)
  /-- The stream of reloads. -/
  | stream
  /-- The methods that exist. -/
  | methods
  /-- Another address to go to. -/
  | redirect (address : Text)
  /-- Nothing but a status. -/
  | status (code : Nat)
deriving DecidableEq, Repr

/-- The page as the browser gets it, with the reload script; none where its fragment cannot be read. -/
def renderPage (site : Site) (tree : Variables) (page : Page) : Reading (Option Text) := do
  match ← Reading.attempt (Reading.textOf page.fragment) with
  | .error e => if e.isOfFiles then return none else throw e
  | .ok fragment =>
    match ← Reading.attempt (Assembly.assemble site tree page.name false fragment) with
    | .ok html => return some (withReloadClient html)
    | .error _ =>
      Reading.note .error ("Assembly failed for ".toList ++ page.fragment.toText ++
        "; serving raw fragment".toList)
      return some (withReloadClient fragment)

/-- The static file of a path, as far as it may be served. -/
def serveStatic (site : Site) (path : Text) : Reading Reply := do
  let clean := sanitize path
  if clean.isEmpty || isDenied clean then return .status 404
  let disk ← read
  match disk.readBytes (site.root.join clean) with
  | .ok bytes => return .file bytes
  | .error _ => return .status 404

/-- What a path is answered with: a page, or else a static file. -/
def servePath (site : Site) (tree : Variables) (path : Text) : Reading Reply := do
  match ← pageAt site ('/' :: path) with
  | none => serveStatic site path
  | some page =>
    match ← renderPage site tree page with
    | some html => return .page html
    | none => serveStatic site path

/-- A path that can be asked for: nothing, or a text without line breaks behind its first character. -/
def isAskable : Text → Bool
  | [] => true
  | _ :: rest => !List.elem '\n' rest

/-- The answer to a request; a failure is an answer too. -/
def respond (site : Site) (tree : Variables) (method : Method) (target : Text) : Reading Reply := do
  let target := Target.ofRequest target
  match target.resource? with
  | none => return if method = .other then .status 404 else .redirect target.rootAddress
  | some path =>
    if !isAskable path then return .status 404
    match method with
    | .other => return .status 405
    | .options => return .methods
    | _ =>
      if '/' :: path = reloadPath then return .stream
      match ← Reading.attempt (servePath site tree path) with
      | .ok reply => return reply
      | .error _ => return .status 500

end Sitewright.Serve
