import Sitewright.Command.Arguments
import Sitewright.Text.Integer
/-!
# Commands

A command says which project it is for and what is to be done: build the pages, run the development
server, list the pages, or print one of them. This file reads commands from their arguments.
-/
set_option autoImplicit false

namespace Sitewright

open Arguments (Opt Refusal Given)

/-- What is to be done. -/
inductive Action where
  /-- Build the pages; what is given counts before the settings. -/
  | build (baseUrl bundler outDir : Option Text)
  /-- Run the development server. -/
  | dev (host : Option Text) (port : Option Int) (watch : Bool)
  /-- List the pages. -/
  | pages
  /-- Print the document of a page. -/
  | render (route : Text) (strict : Bool)
deriving DecidableEq, Repr

/-- A command: the root directory of the project, its settings file, and what is to be done. -/
structure Command where
  verbose : Bool
  root : Text
  config : Option Text
  action : Action
deriving DecidableEq, Repr

namespace Command

/-! ## Options -/

def long (name : String) (takesValue : Bool) : Opt :=
  ⟨name.toList, ['-' :: '-' :: name.toList], takesValue⟩

def commonOptions : List Opt :=
  [Arguments.help, ⟨"verbose".toList, ["-v".toList, "--verbose".toList], false⟩, long "root" true,
    long "config" true]

def buildOptions : List Opt :=
  [Arguments.help, long "base-url" true, long "bundler" true, long "out" true]

def devOptions : List Opt :=
  [Arguments.help, long "host" true, long "port" true, long "no-watch" false]

def renderOptions : List Opt := [Arguments.help, long "strict" false]

/-! ## Reading -/

/-- The action of a name and of the arguments behind it. -/
def parseAction (name : Text) (arguments : List Text) : Except Refusal Action := do
  let sorted := fun (opts : List Opt) (operands : Nat) => do
    Arguments.sort opts operands (← Arguments.words opts arguments)
  if name = "build".toList then
    let g ← sorted buildOptions 0
    return .build (g.value? "base-url".toList) (g.value? "bundler".toList) (g.value? "out".toList)
  else if name = "dev".toList then
    let g ← sorted devOptions 0
    -- each port that is given has to be an integer
    let ports ← (g.options.filter fun o => o.1 = "port".toList).mapM fun o =>
      match Integer.read o.2 with
      | .ok n => .ok n
      | .error _ => .error .misuse
    return .dev (g.value? "host".toList) ports.getLast? (!g.has "no-watch".toList)
  else if name = "pages".toList then
    let _ ← sorted [Arguments.help] 0
    return .pages
  else if name = "render".toList then
    let g ← sorted renderOptions 1
    match g.operands with
    | [route] => return .render route (g.has "strict".toList)
    | _ => throw .misuse
  else throw .misuse

def parse (arguments : List Text) : Except Refusal Command := do
  let words ← Arguments.words commonOptions arguments
  let (g, rest) ← Arguments.sortLeading commonOptions (words.zip arguments)
  match rest with
  | [] => throw .misuse
  | name :: more =>
    let action ← parseAction name more
    return ⟨g.has "verbose".toList, (g.value? "root".toList).getD ['.'], g.value? "config".toList, action⟩

end Command
end Sitewright
