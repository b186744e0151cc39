import Sitewright.Build.Artifacts
/-!
# Bundlers

A bundler turns materialised pages into files of the output directory. Bundlers are registered by
name; several names may stand for bundlers of one kind.
-/
set_option autoImplicit false

namespace Sitewright.Build

/-- What a bundler has made: its name, the pages by route, and the assets beside them. -/
structure Bundled where
  bundler : Text
  pages : Keyed Path
  assets : List Path
deriving DecidableEq, Repr

/-- A bundler: its name, and what it does. -/
structure Bundler where
  name : Text
  bundle : Site → Artifacts → Job Bundled

/-- Bundlers by the name that they are registered under. -/
abbrev Bundlers := Keyed Bundler

namespace Bundlers

/-- The names, in the order of registration. -/
def names (bundlers : Bundlers) : List Text := Keyed.keys bundlers

def find (bundlers : Bundlers) (name : Text) : Except Failure Bundler :=
  match Keyed.get? name bundlers with
  | some b => .ok b
  | none => .error (.unknownBundler (Text.quoted name) bundlers.names)

/-- Registers the bundler of one name under another name too. -/
def register (bundlers : Bundlers) (name like : Text) : Except Failure Bundlers :=
  (bundlers.find like).map fun b => Keyed.put name b bundlers

end Bundlers
end Sitewright.Build
