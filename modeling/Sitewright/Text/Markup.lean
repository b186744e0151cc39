import Sitewright.Text.Blank
import Sitewright.Text.Scan
/-!
# Marked-up text

The cells of a table may be styled by tags: words in square brackets, which begin with a lower-case
letter, `#`, `/` or `@`. A tag that begins with `/` closes the last one, or the last one of its name.
Backslashes in front of a tag stand for half as many; with an odd one the tag is text.

Main statement: text without an opening bracket stands for itself (`plain?_of_not_mem`).
-/
set_option autoImplicit false

namespace Sitewright.Markup

/-- A tag with the backslashes in front of it. -/
structure Tag where
  backslashes : Nat
  name : Text
deriving DecidableEq, Repr

def beginsTag (c : Char) : Bool := ('a' ≤ c && c ≤ 'z') || c = '#' || c = '/' || c = '@'

/-- The tag behind an opening bracket, up to the closing one. -/
def tagName? (s : Text) : Option Text :=
  let name := s.takeWhile fun c => c ≠ ']' && c ≠ '['
  match name with
  | c :: _ => if beginsTag c && (s.drop name.length).head? = some ']' then some name else none
  | [] => none

def tag : Recognizer Tag := fun s =>
  let slashes := (s.takeWhile (· = '\\')).length
  match s.drop slashes with
  | '[' :: rest =>
    (tagName? rest).map fun name => (⟨slashes, name⟩, slashes + name.length + 2)
  | _ => none

/-- The open tags behind a closing one, the last one first; none where it closes no tag. -/
def close? (name : Text) (opened : List Text) : Option (List Text) :=
  if name.isEmpty then opened.tail? else if List.elem name opened then some (opened.erase name) else none

def styleName (name : Text) : Text :=
  (Text.trim (name.takeWhile (· ≠ '='))).map Char.toLower

/-- The loop of the reading: `opened` are the open tags, the last one first, `text` what has been
passed since the last tag, and `out` what the text stands for, both in reverse. -/
def plainFrom (opened : List Text) (out text : Text) : List (Scan.Piece Tag) → Option Text
  | [] => some (flush out text).reverse
  | .plain c :: rest => plainFrom opened out (c :: text) rest
  | .mark t _ :: rest =>
    let out := List.replicate (t.backslashes / 2) '\\' ++ flush out text
    if t.backslashes % 2 = 1 then plainFrom opened ((('[' :: t.name) ++ [']']).reverseAux out) [] rest
    else match t.name with
      | '/' :: name =>
        match close? (styleName name) opened with
        | some opened => plainFrom opened out [] rest
        | none => none
      | name => plainFrom (styleName name :: opened) out [] rest
where
  /-- What has been passed, in which a backslash in front of a bracket is left out, behind the rest. -/
  flush (out : Text) : Text → Text
    | [] => out
    | '[' :: '\\' :: text => '[' :: flush out text
    | c :: text => c :: flush out text

/-- What a marked-up text stands for; none where a closing tag closes no tag. -/
def plain? (s : Text) : Option Text :=
  if List.elem '[' s then plainFrom [] [] [] (Scan.scan tag s) else some s

theorem plain?_of_not_mem {s : Text} (h : '[' ∉ s) : plain? s = some s := by
  simp [plain?, h]

end Sitewright.Markup
