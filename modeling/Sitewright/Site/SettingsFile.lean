import Sitewright.Job
import Sitewright.Site.Settings
import Sitewright.Yaml.Document
/-!
# Settings files

The settings of a project come from a file in its root directory, or from one that is named. A file
that is not named need not be there. The environment counts before the file.

Main statement: a document that holds nothing leaves every setting as it is (`ofDocument_of_isNothing`).
-/
set_option autoImplicit false

namespace Sitewright

/-- What the environment says about a project. -/
structure Environment where
  /-- The address that the pages are deployed under. -/
  productionUrl : Option Text
  /-- The port of the development server. -/
  port : Option Text
deriving DecidableEq, Repr

namespace Settings

/-- The name of the settings file in the root directory of a project. -/
def fileName : Text := "pageforge.yaml".toList

def portion : Nat := 8192

/-- The items of a value: of a text its characters, of a mapping its keys. -/
def itemsOf (v : Yaml.Value) : Except Failure (List Yaml.Value) :=
  match v with
  | .sequence items => .ok items
  | .scalar (.string s) => .ok (s.map fun c => .string [c])
  | .scalar (.bytes bytes) => .ok (bytes.map fun b => .scalar (.int b.toNat))
  | .mapping members => .ok (members.map fun m => .scalar m.1)
  | .set items => .ok (items.map .scalar)
  | .pairs items => .ok (items.map fun p => .sequence [p.1, p.2])
  | .scalar _ => .error (.wrongType (v.typeName ++ " has no items".toList))

def settingOf? (key : Yaml.Scalar) : Option Setting :=
  match key with
  | .string name => Setting.ofName? name
  | _ => none

/-- The keys that name no setting, in ascending order. -/
def unknownKeys (members : List (Yaml.Scalar × Yaml.Value)) : Except Failure (List Yaml.Scalar) :=
  match Yaml.sortedScalars? ((members.map Prod.fst).filter fun k => (settingOf? k).isNone) with
  | some keys => .ok keys
  | none => .error (.wrongType "keys of several types".toList)

def assign : List (Yaml.Scalar × Yaml.Value) → Settings → Except Failure Settings
  | [], s => .ok s
  | (key, value) :: rest, s =>
    match settingOf? key with
    | none => assign rest s
    | some k =>
      if k.isSequence then
        match itemsOf value with
        | .ok items => assign rest (s.set k (.sequence items))
        | .error e => .error e
      else assign rest (s.set k value)

/-- The settings of a document, which is found in a file of some name. -/
def ofDocument (file : Text) (v : Yaml.Value) : Except Failure Settings :=
  if v.isNothing then .ok default
  else match v with
    | .mapping members =>
      match unknownKeys members with
      | .error e => .error e
      | .ok [] => assign members default
      | .ok keys =>
        .error (.unknownSettings file (keys.map Yaml.Scalar.shown) (Setting.all.map Setting.name))
    | _ => .error (.settingsNotAMapping v.typeName)

theorem ofDocument_of_isNothing (file : Text) {v : Yaml.Value} (h : v.isNothing = true) :
    ofDocument file v = .ok default := by simp [ofDocument, h]

def ofFile (path : Path) : Reading Settings := do
  let bytes ← Reading.ask (·.readBytes path)
  let text ← Reading.ofExcept .notUtf8 (Utf8.decodeInPortions portion bytes)
  let v ← Reading.ofExcept .badSettings (Yaml.read (Newline.normalize text))
  Reading.ofExcept id (ofDocument path.name v)

/-- The settings with what the environment says in their places. -/
def withEnvironment (s : Settings) (env : Environment) : Except Failure Settings := do
  let url := Text.trim (env.productionUrl.getD [])
  let s := if url.isEmpty then s else s.set .baseUrl (.string url)
  match env.port with
  | none => return s
  | some text =>
    match Integer.read text with
    | .ok n => return s.set .devPort (.scalar (.int n))
    | .error e => throw (.badPort text e)

/-- The settings of the project in a directory: those of the file that is named, or of the one that the
directory has. -/
def load (root : Path) (config : Option Text) (env : Environment) : Reading Settings := do
  let named := config.filter fun c => !c.isEmpty
  let path := match named with
    | some c => Path.ofText c
    | none => root.join fileName
  let there ← if named.isSome then pure true else Reading.ask (·.exists? path)
  let s ← if there then ofFile path else pure default
  Reading.ofExcept id (s.withEnvironment env)

end Settings
end Sitewright
