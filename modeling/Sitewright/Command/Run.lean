import Sitewright.Assembly
import Sitewright.Build.Run
import Sitewright.Command.Basic
import Sitewright.Site.SettingsFile
import Sitewright.Text.Markup
/-!
# Running commands

A command reads the settings and the variables of its project, does what it is for, and reports: what it
prints, what it prints about errors, and its exit status. What it does not expect to go wrong is left to
the caller.
-/
set_option autoImplicit false

namespace Sitewright.Command

/-! ## Reports -/

/-- A part of what a command prints. -/
inductive Printed where
  | text (s : Text)
  /-- The seconds that the command has taken, with two decimals. -/
  | elapsed
  /-- A row of a table. -/
  | row (cells : List Text)
deriving DecidableEq, Repr

/-- Where the development server listens. -/
structure Listening where
  host : Yaml.Value
  port : Yaml.Value
deriving Repr

/-- What a command reports. -/
structure Report where
  status : Nat
  output : List Printed
  errors : Text
  listening : Option Listening
deriving Repr

def succeeded (output : List Printed) : Report := ⟨0, output, [], none⟩

def failed (output : List Printed) (errors : Text) : Report := ⟨1, output, errors ++ ['\n'], none⟩

/-- The report of a step that has to come first; some failures are reported and end the command. -/
def orReport {α : Type} (expected : Failure → Bool) (step : Job α) (next : α → Job Report) :
    Job Report := do
  match ← Job.attempt step with
  | .ok a => next a
  | .error e =>
    if expected e then return failed [] ("Error: ".toList ++ e.message) else throw e

/-! ## What every command needs -/

def rootOf (c : Command) : Job Path := do
  return Path.ofLocation ((Path.ofText c.root).resolve (← get).disk.here)

def withSettings (c : Command) (env : Environment) (root : Path) (next : Settings → Job Report) :
    Job Report :=
  orReport (fun e => e.isOfFiles || e.isOfValue) (Job.look (Settings.load root c.config env)) next

def withVariables (settings : Settings) (root : Path) (next : Variables → Job Report) :
    Job Report := do
  let file ← Job.ofExcept (settings.textOf .variablesPath)
  orReport Failure.isOfValue (Job.look (Variable.load (root.join file))) next

/-! ## Building -/

def bundlerOf (bundlers : Build.Bundlers) (settings : Settings) : Except Failure Build.Bundler :=
  match settings .bundler with
  | .scalar (.string name) => bundlers.find name
  | .scalar s => .error (.unknownBundler s.shown bundlers.names)
  | v => .error (.wrongType ("not a name: ".toList ++ v.typeName))

def shownBase (settings : Settings) : Text :=
  let v := settings .baseUrl
  if v.isNothing then "(relative)".toList
  else match v with
    | .scalar (.string s) => s
    | .scalar s => s.shown
    | _ => v.typeName

def rule : Text := List.replicate 60 '=' ++ ['\n']

def buildHeading (root : Path) (bundler : Text) (base : Text) : Text :=
  "Building ".toList ++ root.toText ++ "\nBundler:  ".toList ++ bundler ++ "\nBase URL: ".toList ++
    base ++ "\n\n".toList

def buildResult (outputs : List Path) : List Printed :=
  [.text (rule ++ "BUILD RESULT\n".toList ++ rule ++
      outputs.flatMap (fun p => "  ".toList ++ p.toText ++ ['\n']) ++
      '\n' :: Integer.ofNat outputs.length ++ " page(s) in ".toList),
    .elapsed, .text ("s\n".toList ++ rule)]

def build (bundlers : Build.Bundlers) (settings : Settings) (root : Path) : Job Report :=
  withVariables settings root fun tree =>
    orReport Failure.isOfValue (Job.ofExcept (bundlerOf bundlers settings)) fun bundler => do
      let heading := Printed.text (buildHeading root bundler.name (shownBase settings))
      let work : Job Build.Built := do
        let site ← Job.ofExcept (settings.site root)
        Build.run bundlers site (some tree) (some bundler)
      match ← Job.attempt work with
      | .ok built => return succeeded (heading :: buildResult built.outputs)
      | .error e => return failed [heading] ("\nBuild failed: ".toList ++ e.message)

/-! ## The development server -/

/-- Where the development server listens: what is given counts before the settings, unless it is empty
or zero. -/
def listeningOf (settings : Settings) (host : Option Text) (port : Option Int) : Listening :=
  ⟨match host with
    | some h => if h.isEmpty then settings .devHost else .string h
    | none => settings .devHost,
   match port with
    | some p => if p = 0 then settings .devPort else .scalar (.int p)
    | none => settings .devPort⟩

def dev (settings : Settings) (root : Path) (host : Option Text) (port : Option Int) (watch : Bool) :
    Job Report :=
  withVariables settings root fun _ => do
    if watch then
      -- the output and temporary directories are not watched
      let _ ← Job.ofExcept (settings.textOf .outDir)
      let _ ← Job.ofExcept (settings.textOf .tmpDir)
    return ⟨0, [], [], some (listeningOf settings host port)⟩

/-! ## Pages -/

def cell (s : Text) : Except Failure Text :=
  match Markup.plain? s with
  | some t => .ok (Text.trim t)
  | none => .error (.badMarkup s)

def belowRoot (root path : Path) : Except Failure Text :=
  match path.relativeTo? root with
  | some p => .ok p.toText
  | none => .error (.notBelow path.toText root.toText)

def pageRow (site : Site) (route : Text) (page : Page) : Except Failure Printed := do
  let fragment ← belowRoot site.root page.fragment
  let script ← match page.script with
    | some path => belowRoot site.root path
    | none => .ok ['-']
  return .row (← [route, Page.addressOf site route, fragment, script].mapM cell)

def listPages (settings : Settings) (root : Path) : Job Report := do
  let site ← Job.ofExcept (settings.site root)
  let pages ← Job.look (Page.discover site)
  if pages.isEmpty then
    let line := "No pages found under ".toList ++ site.pagesRoot.toText
    match Markup.plain? line with
    | some s => return succeeded [.text (s ++ ['\n'])]
    | none => throw (.badMarkup line)
  else return succeeded (← Job.ofExcept (pages.mapM fun p => pageRow site p.1 p.2))

def render (settings : Settings) (root : Path) (route : Text) (strict : Bool) : Job Report :=
  withVariables settings root fun tree => do
    let site ← Job.ofExcept (settings.site root)
    let pages ← Job.look (Page.discover site)
    match Keyed.get? route pages with
    | some page => return succeeded [.text (← Job.look (Assembly.assembleFile site tree page strict))]
    | none =>
      return failed [] ("Unknown route: ".toList ++ Text.quoted route ++ ". Available: ".toList ++
        Text.quotedList (Text.sorted (Keyed.keys pages)))

/-! ## All commands -/

def overrideText (settings : Settings) (k : Setting) (s : Option Text) : Settings :=
  match s with
  | some s => settings.set k (.string s)
  | none => settings

def run (bundlers : Build.Bundlers) (env : Environment) (c : Command) : Job Report := do
  let root ← rootOf c
  withSettings c env root fun settings =>
    match c.action with
    | .build baseUrl bundler outDir =>
      let settings := overrideText settings .baseUrl baseUrl
      let settings := overrideText settings .bundler bundler
      build bundlers (overrideText settings .outDir outDir) root
    | .dev host port watch => dev settings root host port watch
    | .pages => listPages settings root
    | .render route strict => render settings root route strict

end Sitewright.Command
