/-!
# Texts

A text is the list of its characters. This file holds the operations the rest of the library
is written with: what follows a given front, the first occurrence of a part, splitting at a
character, trimming by a class of characters, and the order by code point.

Main statements: a front and what follows it make up the text (`eq_append_of_after?`), a cut at an
occurrence loses nothing (`eq_of_cutAt?`), and joining the pieces of a split gives the text back
(`join_splitOn`).
-/
set_option autoImplicit false

namespace Sitewright

abbrev Text := List Char

namespace Text

/-! ## Fronts and parts -/

/-- What follows `front` in a text that begins with it. -/
def after? : Text → Text → Option Text
  | [], s => some s
  | _ :: _, [] => none
  | a :: front, b :: s => if a = b then after? front s else none

/-- The text begins with `front`. -/
def startsWith (front s : Text) : Bool := (after? front s).isSome

/-- The text ends with `tail`. -/
def endsWith (tail s : Text) : Bool := (after? tail.reverse s.reverse).isSome

theorem eq_append_of_after? {front s rest : Text} (h : after? front s = some rest) :
    s = front ++ rest := by
  induction front generalizing s with
  | nil => simpa [after?] using h
  | cons a front ih =>
    cases s with
    | nil => simp [after?] at h
    | cons b s =>
      by_cases hab : a = b
      · subst hab
        simp [after?] at h
        simp [ih h]
      · simp [after?, hab] at h

theorem after?_append (front rest : Text) : after? front (front ++ rest) = some rest := by
  induction front with
  | nil => rfl
  | cons a front ih => simp [after?, ih]

/-- The text holds `part` as a stretch of consecutive characters. -/
def contains (part : Text) : Text → Bool
  | [] => part.isEmpty
  | c :: s => startsWith part (c :: s) || contains part s

/-- The cut loop: `passed` holds, in reverse, the characters already left behind. -/
def cutFrom (part : Text) (passed : Text) : Text → Option (Text × Text)
  | [] => if part.isEmpty then some (passed.reverse, []) else none
  | c :: s =>
    match after? part (c :: s) with
    | some rest => some (passed.reverse, rest)
    | none => cutFrom part (c :: passed) s

/-- What stands before and after the first occurrence of `part`. -/
def cutAt? (part s : Text) : Option (Text × Text) := cutFrom part [] s

theorem eq_of_cutFrom {part passed s before rest : Text}
    (h : cutFrom part passed s = some (before, rest)) :
    passed.reverse ++ s = before ++ part ++ rest := by
  induction s generalizing passed with
  | nil =>
    by_cases hp : part.isEmpty
    · simp [cutFrom, hp] at h
      simp [List.isEmpty_iff.1 hp, ← h.1, ← h.2]
    · simp [cutFrom, hp] at h
  | cons c s ih =>
    cases ha : after? part (c :: s) with
    | some r =>
      simp [cutFrom, ha] at h
      rw [eq_append_of_after? ha, h.1, h.2, List.append_assoc]
    | none =>
      simp [cutFrom, ha] at h
      simpa using ih h

theorem eq_of_cutAt? {part s before rest : Text} (h : cutAt? part s = some (before, rest)) :
    s = before ++ part ++ rest := by
  simpa using eq_of_cutFrom h

/-- The text with the first occurrence of `old` replaced; unchanged where there is none. -/
def replaceFirst (old new s : Text) : Text :=
  match cutAt? old s with
  | some (before, rest) => before ++ new ++ rest
  | none => s

/-! ## Splitting and joining -/

/-- The split loop: `done` holds the finished pieces and `piece` the open one, both in reverse. -/
def splitFrom (sep : Char) (done : List Text) (piece : Text) : Text → List Text
  | [] => (piece.reverse :: done).reverse
  | c :: s =>
    if c = sep then splitFrom sep (piece.reverse :: done) [] s
    else splitFrom sep done (c :: piece) s

/-- The pieces between the occurrences of `sep`; always at least one piece. -/
def splitOn (sep : Char) (s : Text) : List Text := splitFrom sep [] [] s

/-- The parts with `sep` between neighbours. -/
def join (sep : Text) (parts : List Text) : Text := List.intercalate sep parts

theorem join_cons_cons (sep a b : Text) (parts : List Text) :
    join sep (a :: b :: parts) = a ++ sep ++ join sep (b :: parts) := by
  simp [join, List.intercalate, List.intersperse]

theorem join_append_singleton (sep : Text) (parts : List Text) (last more : Text) :
    join sep (parts ++ [last]) ++ more = join sep (parts ++ [last ++ more]) := by
  induction parts with
  | nil => simp [join, List.intercalate]
  | cons a parts ih =>
    cases parts with
    | nil => simp [join, List.intercalate, List.intersperse]
    | cons b parts =>
      rw [List.cons_append, List.cons_append, join_cons_cons, List.cons_append, List.cons_append,
        join_cons_cons, List.append_assoc, ← List.cons_append, ih, List.cons_append]

theorem join_append_pair (sep : Text) (parts : List Text) (a b : Text) :
    join sep (parts ++ [a, b]) = join sep (parts ++ [a]) ++ sep ++ b := by
  induction parts with
  | nil => simp [join, List.intercalate, List.intersperse]
  | cons x parts ih =>
    cases parts with
    | nil => simp [join, List.intercalate, List.intersperse]
    | cons y parts =>
      simp only [List.cons_append, join_cons_cons] at ih ⊢
      rw [ih]
      simp only [List.append_assoc]

theorem join_splitFrom (sep : Char) (done : List Text) (piece s : Text) :
    join [sep] (splitFrom sep done piece s) = join [sep] (done.reverse ++ [piece.reverse]) ++ s := by
  induction s generalizing done piece with
  | nil => simp [splitFrom]
  | cons c s ih =>
    by_cases h : c = sep
    · subst h
      rw [splitFrom, if_pos rfl, ih, List.reverse_cons, List.append_assoc]
      simp [join_append_pair]
    · rw [splitFrom, if_neg h, ih, List.reverse_cons, ← join_append_singleton]
      simp

/-- Splitting loses nothing. -/
theorem join_splitOn (sep : Char) (s : Text) : join [sep] (splitOn sep s) = s := by
  rw [splitOn, join_splitFrom]
  simp [join, List.intercalate]

/-! ## Trimming -/

def trimEnd (cls : Char → Bool) (s : Text) : Text := (s.reverse.dropWhile cls).reverse

/-- The text without its first and its last characters in the class. -/
def trimBoth (cls : Char → Bool) (s : Text) : Text := trimEnd cls (s.dropWhile cls)

/-! ## Order -/

/-- Lexicographic order by code point; a proper front comes first. -/
def before : Text → Text → Bool
  | [], [] => false
  | [], _ :: _ => true
  | _ :: _, [] => false
  | a :: s, b :: t => if a = b then before s t else a.val < b.val

/-- The texts in ascending order, equal ones in their given order. -/
def sorted (texts : List Text) : List Text := texts.mergeSort fun a b => !before b a

end Text
end Sitewright
