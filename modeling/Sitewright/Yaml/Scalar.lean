import Sitewright.Yaml.Cursor
/-!
# Scalars of a settings document

A scalar is written plainly, in quotes, or as a block of lines. This file reads each of them: the text
that it stands for and the place behind it. Line ends within a scalar are folded: one of them stands
for a space, and of several the first is left out.
-/
set_option autoImplicit false

namespace Sitewright.Yaml

/-! ## Folding -/

/-- What a line end and the further ones behind it stand for. -/
def folded (first : Text) (more : Text) : Text :=
  if first ≠ ['\n'] then first ++ more else if more.isEmpty then [' '] else more

/-! ## Quoted scalars -/

def shortEscape? (c : Char) : Option Char :=
  match c with
  | '0' => some '\x00'
  | 'a' => some '\x07'
  | 'b' => some '\x08'
  | 't' => some '\t'
  | '\t' => some '\t'
  | 'n' => some '\n'
  | 'v' => some '\x0b'
  | 'f' => some '\x0c'
  | 'r' => some '\r'
  | 'e' => some '\x1b'
  | ' ' => some ' '
  | '"' => some '"'
  | '\\' => some '\\'
  | '/' => some '/'
  | 'N' => some '\x85'
  | '_' => some '\xa0'
  | 'L' => some '\u2028'
  | 'P' => some '\u2029'
  | _ => none

def codeLength? (c : Char) : Option Nat :=
  match c with
  | 'x' => some 2
  | 'u' => some 4
  | 'U' => some 8
  | _ => none

def hexNumber? (digits : Text) : Option Nat :=
  digits.foldlM (fun n c => (Text.hexDigit? c).map fun d => 16 * n + d) 0

/-- The character of a code point; half a pair stands for no character. -/
def charOf (n : Nat) : Except Problem Char :=
  if n ≥ 0x80000000 then .error .tooLarge
  else if n > 0x10ffff then .error .badCharacter
  else if 0xd800 ≤ n && n < 0xe000 then .ok '\ufffd'
  else .ok (Char.ofNat n)

/-- The line ends at the place, passing over spaces and tabs before each. -/
def quotedBreaks : Nat → Text → Cursor → Except Problem (Text × Cursor)
  | 0, _, _ => .error .malformed
  | fuel + 1, out, c =>
    if c.atSeparator then .error .malformed
    else
      let c := c.skip fun ch => ch = ' ' || ch = '\t'
      if isBreak c.peek then
        let (b, c) := c.lineBreak
        quotedBreaks fuel (out ++ b) c
      else .ok (out, c)

def quotedBlanks (fuel : Nat) (c : Cursor) : Except Problem (Text × Cursor) :=
  let blanks := c.run fun ch => ch = ' ' || ch = '\t'
  let c := c.forward blanks.length
  if c.rest.isEmpty then .error .malformed
  else if isBreak c.peek then do
    let (first, c) := c.lineBreak
    let (more, c) ← quotedBreaks fuel [] c
    return (folded first more, c)
  else .ok (blanks, c)

/-- Reads a quoted scalar behind its opening quote; `out` is its text so far, in reverse. -/
def quotedFrom (double : Bool) : Nat → Text → Cursor → Except Problem (Text × Cursor)
  | 0, _, _ => .error .malformed
  | fuel + 1, out, c =>
    match c.rest with
    | [] => .error .malformed
    | ch :: _ =>
      if isGap ch then
        match quotedBlanks fuel c with
        | .error e => .error e
        | .ok (s, c) => quotedFrom double fuel (s.reverseAux out) c
      else if double then
        if ch = '"' then .ok (out.reverse, c.step)
        else if ch = '\\' then
          let c := c.step
          match shortEscape? c.peek, codeLength? c.peek with
          | some e, _ => quotedFrom double fuel (e :: out) c.step
          | none, some n =>
            let c := c.step
            let digits := c.rest.take n
            if digits.length < n then .error .malformed
            else match hexNumber? digits with
              | none => .error .malformed
              | some code =>
                match charOf code with
                | .error e => .error e
                | .ok e => quotedFrom double fuel (e :: out) (c.forward n)
          | none, none =>
            if isBreak c.peek then
              match quotedBreaks fuel [] c.lineBreak.2 with
              | .error e => .error e
              | .ok (s, c) => quotedFrom double fuel (s.reverseAux out) c
            else .error .malformed
        else quotedFrom double fuel (ch :: out) c.step
      else if ch = '\'' then
        if c.peekAt 1 = '\'' then quotedFrom double fuel ('\'' :: out) (c.forward 2)
        else .ok (out.reverse, c.step)
      else quotedFrom double fuel (ch :: out) c.step

def readQuoted (c : Cursor) : Except Problem (Text × Cursor) :=
  quotedFrom (c.peek = '"') c.bound [] c.step

/-! ## Plain scalars -/

/-- A plain scalar ends at this character, before the next one. -/
def endsPlain (inFlow : Bool) (ch next : Char) : Bool :=
  isGap ch || (ch = ':' && (isGap next || (inFlow && List.elem next ",[]\x7b\x7d".toList))) ||
    (inFlow && List.elem ch ",?[]\x7b\x7d".toList)

/-- The length of the stretch of a plain scalar up to its next blank or its end, behind `passed`
characters of it. -/
def plainStretch (inFlow : Bool) (passed : Nat) : Text → Nat
  | [] => passed
  | ch :: rest =>
    if endsPlain inFlow ch (rest.headD '\x00') then passed else plainStretch inFlow (passed + 1) rest

/-- The line ends at the place, passing over spaces; none where documents are parted. -/
def plainBreaks : Nat → Text → Cursor → Option (Text × Cursor)
  | 0, _, _ => none
  | fuel + 1, out, c =>
    let c := c.skipSpaces
    if isBreak c.peek then
      let (b, c) := c.lineBreak
      if c.atSeparator then none else plainBreaks fuel (out ++ b) c
    else some (out, c)

/-- The gap between two stretches of a plain scalar. -/
structure PlainGap where
  /-- What the gap stands for, if a scalar goes on behind it. -/
  text : Text
  /-- The place behind the gap. -/
  place : Cursor
  /-- The gap holds a line end. -/
  broken : Bool

def plainGap (c : Cursor) : PlainGap :=
  let blanks := c.run (· = ' ')
  let c := c.forward blanks.length
  if isBreak c.peek then
    let (first, c) := c.lineBreak
    if c.atSeparator then ⟨[], c, true⟩
    else match plainBreaks c.bound [] c with
      | some (more, c) => ⟨folded first more, c, true⟩
      | none => ⟨[], c, true⟩
  else ⟨blanks, c, false⟩

/-- Reads a plain scalar: its text, the place behind it, and whether a line ends there. A scalar on
several lines goes on as long as they are indented by `indent`; `out` is its text so far, in reverse. -/
def plainFrom (inFlow : Bool) (indent : Nat) : Nat → Text → Bool → Cursor → Text × Cursor × Bool
  | 0, out, broken, c => (out.reverse, c, broken)
  | fuel + 1, out, broken, c =>
    let stretch := if c.peek = '#' then 0 else plainStretch inFlow 0 c.rest
    if stretch = 0 then (out.reverse, c, broken)
    else
      let out := (c.rest.take stretch).reverseAux out
      let gap := plainGap (c.forward stretch)
      let next := gap.place
      if gap.text.isEmpty || next.peek = '#' || (!inFlow && decide (next.column < indent)) ||
          endsPlain inFlow next.peek (next.peekAt 1) then
        (out.reverse, next, gap.broken)
      else plainFrom inFlow indent fuel (gap.text.reverseAux out) gap.broken next

/-! ## Blocks of lines -/

/-- How the line ends behind a block are kept. -/
inductive Chomping where
  | clip
  | strip
  | keep
deriving DecidableEq, Repr

def chomping? (c : Char) : Option Chomping :=
  if c = '+' then some .keep else if c = '-' then some .strip else none

/-- The chomping and the indentation that the head of a block gives, in either order. -/
def blockHead (c : Cursor) : Except Problem (Chomping × Option Nat × Cursor) :=
  let digit? := fun (ch : Char) => if ch.isDigit then some (ch.toNat - 48) else none
  let found : Chomping × Option Nat × Cursor :=
    match chomping? c.peek, digit? c.peek with
    | some ch, _ =>
      let c := c.step
      match digit? c.peek with
      | some d => (ch, some d, c.step)
      | none => (ch, none, c)
    | none, some d =>
      let c := c.step
      match chomping? c.peek with
      | some ch => (ch, some d, c.step)
      | none => (.clip, some d, c)
    | none, none => (.clip, none, c)
  if found.2.1 = some 0 || !isSpaceOrEnd found.2.2.peek then .error .malformed else .ok found

/-- The empty lines at the place, and the greatest indentation among them. -/
def leadingBreaks : Nat → Text → Nat → Cursor → Text × Nat × Cursor
  | 0, out, indent, c => (out, indent, c)
  | fuel + 1, out, indent, c =>
    if c.peek = ' ' then
      let c := c.step
      leadingBreaks fuel out (max indent c.column) c
    else if isBreak c.peek then
      let (b, c) := c.lineBreak
      leadingBreaks fuel (out ++ b) indent c
    else (out, indent, c)

/-- Goes on behind spaces, but not beyond a column. -/
def skipIndent (indent : Nat) (c : Cursor) : Cursor :=
  c.forward (min (c.run (· = ' ')).length (indent - c.column))

/-- The empty lines at the place, each behind an indentation. -/
def blockBreaks (indent : Nat) : Nat → Text → Cursor → Text × Cursor
  | 0, out, c => (out, c)
  | fuel + 1, out, c =>
    let c := skipIndent indent c
    if isBreak c.peek then
      let (b, c) := c.lineBreak
      blockBreaks indent fuel (out ++ b) c
    else (out, c)

def isWhite (c : Char) : Bool := c = ' ' || c = '\t'

/-- Reads the lines of a block. `out` is its text so far, in reverse, `last` the line end behind its last
line, and `breaks` the empty lines before the place. -/
def blockLines (isFolded : Bool) (indent : Nat) :
    Nat → Text → Text → Text → Cursor → Text × Text × Text × Cursor
  | 0, out, last, breaks, c => (out, last, breaks, c)
  | fuel + 1, out, last, breaks, c =>
    if c.column = indent && !c.rest.isEmpty then
      let solid := !isWhite c.peek
      let line := c.run fun ch => !isLineEnd ch
      let out := line.reverseAux (breaks.reverseAux out)
      let (last, c) := (c.forward line.length).lineBreak
      let (breaks, c) := blockBreaks indent c.bound [] c
      if c.column = indent && !c.rest.isEmpty then
        let joint :=
          if isFolded && last = ['\n'] && solid && !isWhite c.peek then
            if breaks.isEmpty then [' '] else []
          else last
        blockLines isFolded indent fuel (joint.reverseAux out) last breaks c
      else (out, last, breaks, c)
    else (out, last, breaks, c)

/-- Reads a block; `least` is the indentation that it has at least. -/
def readBlock (least : Nat) (c : Cursor) : Except Problem (Text × Cursor) := do
  let isFolded := c.peek = '>'
  let (chomping, given, c) ← blockHead c.step
  let c ← c.skipComment
  let fuel := c.bound
  let (breaks, indent, c) := match given with
    | some n =>
      let indent := least + n - 1
      let (breaks, c) := blockBreaks indent fuel [] c
      (breaks, indent, c)
    | none =>
      let (breaks, deepest, c) := leadingBreaks fuel [] 0 c
      (breaks, max least deepest, c)
  let (out, last, breaks, c) := blockLines isFolded indent fuel [] [] breaks c
  return (out.reverse ++ (if chomping = .strip then [] else last) ++
    (if chomping = .keep then breaks else []), c)

end Sitewright.Yaml
