import Sitewright.Yaml.Problem
/-!
# Places in a settings document

A cursor stands at a place of a document and knows its line and column. Reading past the end gives
the null character, which no document holds.

Main statement: a step takes one character (`rest_step`).
-/
set_option autoImplicit false

namespace Sitewright.Yaml

/-! ## Characters -/

def isBreak (c : Char) : Bool :=
  c = '\n' || c = '\r' || c = '\x85' || c = '\u2028' || c = '\u2029'

def isLineEnd (c : Char) : Bool := c = '\x00' || isBreak c

/-- A space, or the end of a line or of the document. -/
def isSpaceOrEnd (c : Char) : Bool := c = ' ' || isLineEnd c

/-- A space, a tab, or the end of a line or of the document. -/
def isGap (c : Char) : Bool := c = '\t' || isSpaceOrEnd c

/-- A letter or digit of ASCII, a hyphen or a bar. -/
def isNameChar (c : Char) : Bool := c.isAlphanum || c = '-' || c = '_'

def isAllowed (c : Char) : Bool :=
  let n := c.toNat
  n = 0x9 || n = 0xa || n = 0xd || (0x20 ≤ n && n ≤ 0x7e) || n = 0x85 || (0xa0 ≤ n && n ≤ 0xd7ff) ||
    (0xe000 ≤ n && n ≤ 0xfffd) || 0x10000 ≤ n

/-! ## Cursors -/

/-- A place in a document: what follows it, how many characters stand before it, its line, its column,
and a number that is greater than that of all characters, which bounds every loop. -/
structure Cursor where
  rest : Text
  index : Nat
  line : Nat
  column : Nat
  bound : Nat
deriving Repr

namespace Cursor

def start (s : Text) : Cursor := ⟨s, 0, 0, 0, s.length + 2⟩

def peek (c : Cursor) : Char := c.rest.headD '\x00'

def peekAt (c : Cursor) (n : Nat) : Char := c.rest.getD n '\x00'

/-- Goes on by one character. A byte order mark takes no column. -/
def step (c : Cursor) : Cursor :=
  match c.rest with
  | [] => c
  | ch :: rest =>
    let c := { c with rest := rest, index := c.index + 1 }
    if isBreak ch && !(ch = '\r' && rest.head? = some '\n') then
      { c with line := c.line + 1, column := 0 }
    else if ch = '\ufeff' then c
    else { c with column := c.column + 1 }

theorem rest_step (c : Cursor) : c.step.rest = c.rest.tail := by
  unfold step
  split
  · rename_i h
    rw [h]
    rfl
  · rename_i h
    rw [h]
    split
    · rfl
    · split <;> rfl

def forward (c : Cursor) : Nat → Cursor
  | 0 => c
  | n + 1 => c.step.forward n

/-- The characters at the place that belong to a class. -/
def run (c : Cursor) (cls : Char → Bool) : Text := c.rest.takeWhile cls

/-- Goes on behind the characters that belong to a class. -/
def skip (c : Cursor) (cls : Char → Bool) : Cursor := c.forward (c.run cls).length

def skipSpaces (c : Cursor) : Cursor := c.skip (· = ' ')

/-- The text that a line end at the place stands for, empty where there is none, and the place behind
it. -/
def lineBreak (c : Cursor) : Text × Cursor :=
  match c.rest with
  | '\r' :: '\n' :: _ => (['\n'], c.forward 2)
  | ch :: _ =>
    if ch = '\r' || ch = '\n' || ch = '\x85' then (['\n'], c.step)
    else if ch = '\u2028' || ch = '\u2029' then ([ch], c.step)
    else ([], c)
  | [] => ([], c)

/-- Three characters that part documents stand at the place, and nothing else up to a gap. -/
def atSeparator (c : Cursor) : Bool :=
  (Text.startsWith "---".toList c.rest || Text.startsWith "...".toList c.rest) && isGap (c.peekAt 3)

/-- Goes on behind spaces and a comment, to the end of the line, which has to be there. -/
def skipComment (c : Cursor) : Except Problem Cursor :=
  let c := c.skipSpaces
  let c := if c.peek = '#' then c.skip fun ch => !isLineEnd ch else c
  if isLineEnd c.peek then .ok c.lineBreak.2 else .error .malformed

end Cursor
end Sitewright.Yaml
