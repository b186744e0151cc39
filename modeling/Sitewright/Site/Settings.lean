import Sitewright.Site.Basic
import Sitewright.Yaml.Value
import Sitewright.Failure
/-!
# Settings

The settings of a project are given by name and keep the value that they are given, whatever its
type. A site is made of them when something is to be done; then each setting has to be of its type.

Main statement: giving a setting a value changes that setting only (`set_self`, `set_of_ne`).
-/
set_option autoImplicit false

namespace Sitewright

open Yaml (Scalar)

/-- A setting, by its name in a settings file. -/
inductive Setting where
  | baseUrl
  | bundleCommand
  | bundler
  | componentMarkup
  | componentNamespace
  | componentScript
  | componentStylesheet
  | componentsRoot
  | devHost
  | devPort
  | globalStyleName
  | globalStylesheet
  | homePage
  | layoutPath
  | outDir
  | pageFilename
  | pageScriptFilename
  | pagesDir
  | publicDir
  | reloadExtensions
  | rootRoute
  | staticDirs
  | tmpDir
  | variablesPath
deriving DecidableEq, Repr

namespace Setting

/-- All settings, in the order of their names. -/
def all : List Setting :=
  [.baseUrl, .bundleCommand, .bundler, .componentMarkup, .componentNamespace, .componentScript,
    .componentStylesheet, .componentsRoot, .devHost, .devPort, .globalStyleName, .globalStylesheet,
    .homePage, .layoutPath, .outDir, .pageFilename, .pageScriptFilename, .pagesDir, .publicDir,
    .reloadExtensions, .rootRoute, .staticDirs, .tmpDir, .variablesPath]

def name : Setting → Text
  | .baseUrl => "base_url".toList
  | .bundleCommand => "bundle_command".toList
  | .bundler => "bundler".toList
  | .componentMarkup => "component_markup".toList
  | .componentNamespace => "component_namespace".toList
  | .componentScript => "component_script".toList
  | .componentStylesheet => "component_stylesheet".toList
  | .componentsRoot => "components_root".toList
  | .devHost => "dev_host".toList
  | .devPort => "dev_port".toList
  | .globalStyleName => "global_style_name".toList
  | .globalStylesheet => "global_stylesheet".toList
  | .homePage => "home_page".toList
  | .layoutPath => "layout_path".toList
  | .outDir => "out_dir".toList
  | .pageFilename => "page_filename".toList
  | .pageScriptFilename => "page_script_filename".toList
  | .pagesDir => "pages_dir".toList
  | .publicDir => "public_dir".toList
  | .reloadExtensions => "reload_extensions".toList
  | .rootRoute => "root_route".toList
  | .staticDirs => "static_dirs".toList
  | .tmpDir => "tmp_dir".toList
  | .variablesPath => "variables_path".toList

def ofName? (s : Text) : Option Setting := all.find? fun k => decide (k.name = s)

theorem mem_all (k : Setting) : k ∈ all := by cases k <;> decide

def isSequence : Setting → Bool
  | .staticDirs | .reloadExtensions => true
  | _ => false

end Setting

abbrev Settings := Setting → Yaml.Value

namespace Settings

def text (s : String) : Yaml.Value := .string s.toList

def default : Settings
  | .baseUrl => text ""
  | .bundleCommand => .scalar .null
  | .bundler => text "copy"
  | .componentMarkup => text "index.html"
  | .componentNamespace => text "common"
  | .componentScript => text "script.ts"
  | .componentStylesheet => text "style.scss"
  | .componentsRoot => text "src"
  | .devHost => text "127.0.0.1"
  | .devPort => .scalar (.int 3000)
  | .globalStyleName => text "global-style"
  | .globalStylesheet => text "src/styles/global.scss"
  | .homePage => text "home"
  | .layoutPath => text "src/app/layout.html"
  | .outDir => text "dist"
  | .pageFilename => text "page.html"
  | .pageScriptFilename => text "main.ts"
  | .pagesDir => text "src/app"
  | .publicDir => text "public"
  | .reloadExtensions => .sequence [text ".html", text ".scss", text ".ts"]
  | .rootRoute => text "index"
  | .staticDirs => .sequence [text "assets", text "imgs", text "fonts"]
  | .tmpDir => text "pages"
  | .variablesPath => text "src/constants/index.json"

def set (s : Settings) (k : Setting) (v : Yaml.Value) : Settings :=
  fun other => if other = k then v else s other

theorem set_self (s : Settings) (k : Setting) (v : Yaml.Value) : s.set k v k = v := by simp [set]

theorem set_of_ne (s : Settings) {k other : Setting} (h : other ≠ k) (v : Yaml.Value) :
    s.set k v other = s other := by simp [set, h]

def isNull : Yaml.Value → Bool
  | .scalar .null => true
  | _ => false

/-- The settings with one of them given a value, where that value is not null. -/
def overrideOne (s : Settings) (k : Setting) (v : Yaml.Value) : Settings :=
  if isNull v then s else s.set k v

/-- The settings with the values that are not null put in their places; a name that is no setting is
refused. -/
def override (s : Settings) : List (Text × Yaml.Value) → Except Failure Settings
  | [] => .ok s
  | (name, v) :: rest =>
    if isNull v then override s rest
    else match Setting.ofName? name with
      | some k => override (s.set k v) rest
      | none => .error (.wrongType ("unexpected keyword argument ".toList ++ Text.quoted name))

/-! ## The site of the settings -/

/-- The text of a setting, which in most cases is a path. -/
def textOf (s : Settings) (k : Setting) : Except Failure Text :=
  match s k with
  | .scalar (.string t) => .ok t
  | v => .error (.wrongType ("unsupported operand type(s) for /: 'PosixPath' and '".toList ++
      v.typeName ++ ['\'']))

def baseAddress (s : Settings) : BaseAddress :=
  match s .baseUrl with
  | .scalar (.string t) => .text t
  | v => .ofType v.typeName

def optionalText (s : Settings) (k : Setting) : Except Failure (Option Text) :=
  match s k with
  | .scalar .null => .ok none
  | .scalar (.string t) => .ok (some t)
  | v => .error (.wrongType ("not a text: ".toList ++ v.typeName))

def textsOf (s : Settings) (k : Setting) : Except Failure (List Text) :=
  match s k with
  | .sequence items => items.mapM fun
    | .scalar (.string t) => .ok t
    | v => .error (.wrongType ("not a text: ".toList ++ v.typeName))
  | v => .error (.wrongType ("not a sequence: ".toList ++ v.typeName))

def site (s : Settings) (root : Path) : Except Failure Site := do
  return {
    root := root
    pagesDir := ← s.textOf .pagesDir
    pageFile := ← s.textOf .pageFilename
    pageScript := ← s.textOf .pageScriptFilename
    homePage := ← s.textOf .homePage
    rootRoute := ← s.textOf .rootRoute
    layoutPath := ← s.textOf .layoutPath
    componentsDir := ← s.textOf .componentsRoot
    componentNamespace := ← s.textOf .componentNamespace
    componentMarkup := ← s.textOf .componentMarkup
    componentStylesheet := ← s.textOf .componentStylesheet
    componentScript := ← s.textOf .componentScript
    variablesPath := ← s.textOf .variablesPath
    tmpDir := ← s.textOf .tmpDir
    outDir := ← s.textOf .outDir
    publicDir := ← s.textOf .publicDir
    globalStylesheet := ← s.textOf .globalStylesheet
    globalStyleName := ← s.textOf .globalStyleName
    staticDirs := ← s.textsOf .staticDirs
    reloadExtensions := ← s.textsOf .reloadExtensions
    baseUrl := s.baseAddress
    bundler := ← s.textOf .bundler
    bundleCommand := ← s.optionalText .bundleCommand }

end Settings
end Sitewright
