import Sitewright.Template.Variable
import Sitewright.Template.Repeat
import Sitewright.File.Copy
import Sitewright.Yaml.Problem
/-!
# Failures

Everything that can go wrong, by cause, and the words that each cause is reported with.
-/
set_option autoImplicit false

namespace Sitewright

/-- Why something could not be done. -/
inductive Failure where
  /-- A path could not be worked with. -/
  | file (problem : FileProblem)
  /-- A file read as text is not UTF-8. -/
  | notUtf8 (problem : Utf8.Problem)
  /-- A tree could not be copied completely. -/
  | copy (notes : List CopyNote)
  /-- A file would be copied onto itself. -/
  | sameFile (source target : Text)
  /-- A path of a variable holds a bad index. -/
  | badIndex (problem : Variable.BadIndex)
  /-- Repeat blocks grow beyond every size. -/
  | overflow (problem : Repeat.Overflow)
  /-- A component includes itself; the chain leads from the page to the repeated component. -/
  | componentCycle (chain : List Text)
  /-- The layout that a page has to have cannot be read. -/
  | layoutUnreadable (path : Text)
  /-- The file of variables is no document. -/
  | notADocument (path : Text)
  /-- The file of variables holds a whole number with too many digits. -/
  | numberTooLong (digits : Nat)
  /-- The file of variables holds a value other than an object. -/
  | notAnObject (path typeName : Text)
  /-- The file of settings cannot be read as a document. -/
  | badSettings (problem : Yaml.Problem)
  /-- The file of settings holds a value other than a mapping. -/
  | settingsNotAMapping (typeName : Text)
  /-- The file of settings has keys that are none of the settings, shown in quotes. -/
  | unknownSettings (file : Text) (keys allowed : List Text)
  /-- The number of a port in the environment is no integer. -/
  | badPort (text : Text) (problem : Integer.Problem)
  /-- A value is not of the type that is needed. -/
  | wrongType (words : Text)
  /-- No bundler is registered under the name, which is shown in quotes. -/
  | unknownBundler (name : Text) (available : List Text)
  /-- Pages are to be published under a base address that is no text, not even an empty one. -/
  | badBaseAddress (typeName : Text)
  /-- A cell of a table is not marked up well. -/
  | badMarkup (text : Text)
  /-- The bundler that runs a command has none. -/
  | noCommand
  /-- The command of a bundler failed. -/
  | commandFailed (status : Int) (errors : Text)
  /-- The output directory to be emptied holds the project. -/
  | outputHoldsProject (path : Text)
  /-- A path does not begin with another one. -/
  | notBelow (path base : Text)
deriving DecidableEq, Repr

namespace Failure

def message : Failure → Text
  | .file problem => problem.message
  | .notUtf8 problem => problem.message
  | .copy notes => CopyNote.listed notes
  | .sameFile source target =>
    "PosixPath(".toList ++ Text.quoted source ++ ") and PosixPath(".toList ++ Text.quoted target ++
      ") are the same file".toList
  | .badIndex problem => problem.message
  | .overflow problem => problem.message
  | .componentCycle chain =>
    "Component cycle: ".toList ++ Text.join " -> ".toList chain
  | .layoutUnreadable path => "Layout shell not readable: ".toList ++ path
  | .notADocument path => "Invalid JSON in ".toList ++ path
  | .numberTooLong digits => (Integer.Problem.tooLong digits).message []
  | .notAnObject path typeName =>
    path ++ " must contain a JSON object, got ".toList ++ typeName
  | .badSettings problem => problem.message
  | .settingsNotAMapping typeName =>
    "Site config YAML must be a mapping, got ".toList ++ typeName
  | .unknownSettings source keys allowed =>
    "Unknown keys in ".toList ++ source ++ ": [".toList ++ Text.join [',', ' '] keys ++
      "]. Allowed: ".toList ++ Text.quotedList allowed
  | .badPort text problem => problem.message (Text.quoted text)
  | .wrongType words => words
  | .unknownBundler name available =>
    "Unknown bundler: ".toList ++ name ++ ". Available: ".toList ++ Text.quotedList available
  | .badBaseAddress typeName =>
    '\'' :: typeName ++ "' object has no attribute 'endswith'".toList
  | .badMarkup text => "closing tag matches no open tag in ".toList ++ Text.quoted text
  | .noCommand => "The 'command' bundler needs bundle_command to be set".toList
  | .commandFailed status errors =>
    "Bundler command failed (".toList ++ Integer.ofInt status ++ "): ".toList ++ errors
  | .outputHoldsProject path =>
    "Refusing to empty output directory ".toList ++ path ++ ": it contains the project".toList
  | .notBelow path base =>
    Text.quoted path ++ " is not in the subpath of ".toList ++ Text.quoted base ++
      " OR one path is relative and the other is absolute.".toList

def isOfFiles : Failure → Bool
  | .file (.flaw _ _) | .copy _ | .sameFile _ _ | .layoutUnreadable _ => true
  | _ => false

def isOfValue : Failure → Bool
  | .file .nulByte | .notUtf8 _ | .badIndex _ | .componentCycle _ | .notADocument _
  | .numberTooLong _ | .notAnObject _ _ | .settingsNotAMapping _ | .unknownSettings _ _ _
  | .badPort _ _ | .unknownBundler _ _ | .noCommand | .outputHoldsProject _ | .notBelow _ _ => true
  | .badSettings problem => problem.isOfValue
  | _ => false

end Failure
end Sitewright
