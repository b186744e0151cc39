import Sitewright.Text.Quoted
/-!
# What is wrong with a settings document

The causes for which a document cannot be read, and their words.
-/
set_option autoImplicit false

namespace Sitewright.Yaml

/-- Why a document cannot be read. -/
inductive Problem where
  /-- The text does not have the form of a document, or asks for values that there are not. -/
  | malformed
  /-- An escape stands for no character. -/
  | badCharacter
  /-- A scalar is said to be a whole number and is none, in the base that it is written in. -/
  | badInteger (base : Nat) (text : Text)
  /-- A whole number has more digits than are read. -/
  | tooManyDigits (digits : Nat)
  /-- A scalar is said to be a number and is none. -/
  | badNumber (text : Text)
  /-- A scalar is said to be a number and has no digits. -/
  | emptyNumber
  /-- A number is beyond every size. -/
  | tooLarge
  /-- A scalar is said to be a truth value and is none. -/
  | badTruth (text : Text)
  /-- A scalar is said to be a time and is none. -/
  | notATime
  /-- A day or a time that the calendar does not have. -/
  | badTime (words : Text)
deriving DecidableEq, Repr

namespace Problem

def message : Problem → Text
  | .malformed => "malformed settings".toList
  | .badCharacter => "chr() arg not in range(0x110000)".toList
  | .badInteger base text => Integer.malformedMessage base (Text.quoted text)
  | .tooManyDigits digits => (Integer.Problem.tooLong digits).message []
  | .badNumber text => "could not convert string to float: ".toList ++ Text.quoted text
  | .emptyNumber => "string index out of range".toList
  | .tooLarge => "int too large to convert to float".toList
  | .badTruth text => Text.quoted text
  | .notATime => "not a time".toList
  | .badTime words => words

def isOfValue : Problem → Bool
  | .badCharacter | .badInteger _ _ | .tooManyDigits _ | .badNumber _ | .badTime _ => true
  | .malformed | .emptyNumber | .tooLarge | .badTruth _ | .notATime => false

end Problem
end Sitewright.Yaml
