import Sitewright.Text.Scan
import Sitewright.Text.Blank
/-!
# Tags

Pages are texts, and no tree is made of them: what matters of a page are its first head, its first
main region, and the first end of its head. Tag names count in any letter case.

Main statement: what is written into a head stands before its first end tag, and all else stays
(`eq_of_appendToHead`).
-/
set_option autoImplicit false

namespace Sitewright.Html

/-! ## Letters in any case -/

/-- The character is the given lower-case letter in some case. The letter i has two further forms, with
a dot as a capital and without one as a small letter. -/
def isLetter (letter c : Char) : Bool :=
  if c.toNat < 128 then c.toLower = letter
  else letter = 'i' && (c = '\u0130' || c = '\u0131')

/-- What follows a word in a text that begins with it, in any letter case. -/
def afterWord? : Text → Text → Option Text
  | [], s => some s
  | _ :: _, [] => none
  | a :: word, c :: s => if isLetter a c then afterWord? word s else none

/-- The stretch before the first occurrence of a word in any letter case, and what follows the word;
`passed` holds what has been left behind, in reverse. -/
def cutAtWord (word passed : Text) : Text → Option (Text × Text)
  | [] => none
  | c :: s =>
    match afterWord? word (c :: s) with
    | some rest => some (passed.reverse, rest)
    | none => cutAtWord word (c :: passed) s

/-! ## Regions -/

/-- Recognises a region: from an opening tag, whose name begins with `name`, to the next end tag of
that name. It means what stands between the two. -/
def region (name : Text) : Recognizer Text := fun s =>
  match afterWord? ('<' :: name) s with
  | none => none
  | some inTag =>
    match inTag.dropWhile (· ≠ '>') with
    | [] => none
    | _ :: behind =>
      match cutAtWord ("</".toList ++ name ++ ['>']) [] behind with
      | none => none
      | some (inner, rest) => some (inner, s.length - rest.length)

def head : Recognizer Text := region "head".toList

def main : Recognizer Text := region "main".toList

def headEnd : Recognizer Unit := fun s =>
  (afterWord? "</head>".toList s).map fun _ => ((), 7)

/-- The text with the first mark replaced; unchanged where there is none. -/
def replaceFirst {α : Type} (mark : Recognizer α) (new : Text) (s : Text) : Text :=
  match Scan.first? mark s with
  | some (before, _, rest) => before ++ new ++ rest
  | none => s

/-! ## Adding to the head -/

/-- The end tag of a head, in lower case. -/
def closeHead : Text := "</head>".toList

def headLine (tag : Text) : Text := "    ".toList ++ tag ++ ['\n']

/-- The text with a tag on a line of its own before the first end tag of a head in lower case;
unchanged where it holds the tag already or has no such end. -/
def appendToHead (s tag : Text) : Text :=
  if Text.contains tag s then s
  else match Text.cutAt? closeHead s with
    | some (before, rest) => before ++ headLine tag ++ closeHead ++ rest
    | none => s

theorem eq_of_appendToHead {s tag : Text} (h : appendToHead s tag ≠ s) :
    ∃ before rest, s = before ++ closeHead ++ rest ∧
      appendToHead s tag = before ++ headLine tag ++ closeHead ++ rest := by
  unfold appendToHead at h ⊢
  split at h
  · exact absurd rfl h
  · rename_i hc
    rw [if_neg hc]
    cases hcut : Text.cutAt? closeHead s with
    | none => simp [hcut] at h
    | some cut =>
      obtain ⟨before, rest⟩ := cut
      exact ⟨before, rest, Text.eq_of_cutAt? hcut, rfl⟩

end Sitewright.Html
