import Sitewright.Text.Basic
/-!
# Scanning a text for marks

A recogniser looks at the front of a text and says whether a mark stands there, what it means and
how many characters it takes. A scan goes through the text from left to right, takes the first mark
it meets and goes on behind it, so marks do not overlap.

Main statement: a scan loses nothing (`source_scan`): the characters passed over and the
sources of the marks, in order, make up the text.
-/
set_option autoImplicit false

namespace Sitewright

/-- What a recogniser finds at the front of a text: a meaning, and the number of characters taken. -/
abbrev Recognizer (α : Type) := Text → Option (α × Nat)

namespace Scan

/-- A piece of a scanned text: a character that belongs to no mark, or a mark with its source. -/
inductive Piece (α : Type) where
  | plain (c : Char)
  | mark (meaning : α) (source : Text)
deriving DecidableEq, Repr

variable {α : Type}

def Piece.source : Piece α → Text
  | .plain c => [c]
  | .mark _ source => source

/-- The scan loop: `skip` characters belong to the mark taken last; `found` holds the pieces so far,
in reverse. -/
def scanFrom (recognize : Recognizer α) (skip : Nat) (found : List (Piece α)) :
    Text → List (Piece α)
  | [] => found.reverse
  | c :: s =>
    match skip with
    | k + 1 => scanFrom recognize k found s
    | 0 =>
      match recognize (c :: s) with
      | some (a, n) => scanFrom recognize (n - 1) (.mark a ((c :: s).take (max n 1)) :: found) s
      | none => scanFrom recognize 0 (.plain c :: found) s

def scan (recognize : Recognizer α) (s : Text) : List (Piece α) := scanFrom recognize 0 [] s

theorem source_scanFrom (recognize : Recognizer α) (skip : Nat) (found : List (Piece α)) (s : Text) :
    (scanFrom recognize skip found s).flatMap Piece.source =
      found.reverse.flatMap Piece.source ++ s.drop skip := by
  induction s generalizing skip found with
  | nil => simp [scanFrom]
  | cons c s ih =>
    cases skip with
    | succ k => simp [scanFrom, ih]
    | zero =>
      cases h : recognize (c :: s) with
      | none => simp [scanFrom, h, ih, Piece.source]
      | some r =>
        obtain ⟨a, n⟩ := r
        have hn : max n 1 = (n - 1) + 1 := by omega
        simp [scanFrom, h, ih, Piece.source, hn]

/-- The pieces of a scan make up the text. -/
theorem source_scan (recognize : Recognizer α) (s : Text) :
    (scan recognize s).flatMap Piece.source = s := by
  simp [scan, source_scanFrom]

/-- The meanings of the marks, in order. -/
def marks (recognize : Recognizer α) (s : Text) : List α :=
  (scan recognize s).filterMap fun
    | .plain _ => none
    | .mark a _ => some a

/-- The text with each mark replaced by what its meaning and source are turned into. -/
def substitute (recognize : Recognizer α) (replace : α → Text → Text) (s : Text) : Text :=
  (scan recognize s).flatMap fun
    | .plain c => [c]
    | .mark a source => replace a source

/-- The marks with their sources, in order. -/
def markPieces (pieces : List (Piece α)) : List (α × Text) :=
  pieces.filterMap fun
    | .plain _ => none
    | .mark a source => some (a, source)

/-- The pieces with one text after the other in the place of the marks; `out` is the text so far, in
reverse. -/
def fill (out : Text) : List (Piece α) → List Text → Text
  | [], _ => out.reverse
  | .plain c :: rest, texts => fill (c :: out) rest texts
  | .mark _ _ :: rest, [] => fill out rest []
  | .mark _ _ :: rest, s :: texts => fill (s.reverseAux out) rest texts

/-- As `substitute`, with a replacement that acts: marks are replaced from left to right. -/
def substituteM {m : Type → Type} [Monad m] (recognize : Recognizer α)
    (replace : α → Text → m Text) (s : Text) : m Text := do
  let pieces := scan recognize s
  let texts ← (markPieces pieces).mapM fun mark => replace mark.1 mark.2
  return fill [] pieces texts

/-- The loop of `first?`: `passed` holds the characters before the mark, in reverse. -/
def firstFrom (recognize : Recognizer α) (passed : Text) : Text → Option (Text × α × Text)
  | [] => none
  | c :: s =>
    match recognize (c :: s) with
    | some (a, n) => some (passed.reverse, a, (c :: s).drop n)
    | none => firstFrom recognize (c :: passed) s

/-- The first mark of a text: what stands before it, its meaning, and what stands after it. -/
def first? (recognize : Recognizer α) (s : Text) : Option (Text × α × Text) :=
  firstFrom recognize [] s

end Scan
end Sitewright
