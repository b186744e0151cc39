import Sitewright.Text.Scan
import Sitewright.Text.Integer
/-!
# Repeat blocks

A text may hold blocks between an opening marker `\x7b\x7brepeat COUNT\x7d\x7d` and a closing marker
`\x7b\x7b/repeat\x7d\x7d`, nested to any depth. The text is cut into tokens, the tokens are matched
like brackets into a forest of nodes, and the forest is expanded: a block's children as often as its
count says. An opening marker without its close and a close without its opening stay as they are.

Main statement: the sources of the tokens make up the text (`source_tokens`).
-/
set_option autoImplicit false

namespace Sitewright.Repeat

/-! ## Markers and tokens -/

/-- What a marker says. -/
inductive Marker where
  | opening (count : Text)
  | closing
deriving DecidableEq, Repr

/-- The number of characters up to the end of a marker, where only blanks stand before its end. -/
def endOf? (s : Text) : Option Nat :=
  let blanks := (s.takeWhile Text.isBlank).length
  match s.drop blanks with
  | '\x7d' :: '\x7d' :: _ => some (blanks + 2)
  | _ => none

/-- The shortest count, of at least one character and without blanks, behind which the marker ends;
with the number of characters up to the end. `count` holds what has been read, in reverse. -/
def countFrom (count : Text) : Text → Option (Text × Nat)
  | [] => none
  | c :: s =>
    if Text.isBlank c then none
    else match endOf? s with
      | some n => some ((c :: count).reverse, count.length + 1 + n)
      | none => countFrom (c :: count) s

def marker : Recognizer Marker
  | '\x7b' :: '\x7b' :: s =>
    let blanks := (s.takeWhile Text.isBlank).length
    let body := s.drop blanks
    match Text.after? "repeat".toList body with
    | some rest =>
      let gap := (rest.takeWhile Text.isBlank).length
      if gap = 0 then none
      else (countFrom [] (rest.drop gap)).map fun found =>
        (.opening found.1, 2 + blanks + 6 + gap + found.2)
    | none =>
      match Text.after? "/repeat".toList body with
      | some rest => (endOf? rest).map fun n => (.closing, 2 + blanks + 7 + n)
      | none => none
  | _ => none

/-- A marker with its source, or a stretch of text between markers. -/
inductive Token where
  | text (s : Text)
  | opening (count source : Text)
  | closing (source : Text)
deriving DecidableEq, Repr

def Token.source : Token → Text
  | .text s => s
  | .opening _ source => source
  | .closing source => source

/-- Puts a stretch, held in reverse, in front of the tokens found so far; an empty one is none. -/
def closeStretch (stretch : Text) (found : List Token) : List Token :=
  if stretch.isEmpty then found else .text stretch.reverse :: found

/-- Gathers pieces into tokens; `stretch` and `found` are held in reverse. -/
def gather (stretch : Text) (found : List Token) : List (Scan.Piece Marker) → List Token
  | [] => (closeStretch stretch found).reverse
  | .plain c :: rest => gather (c :: stretch) found rest
  | .mark (.opening count) source :: rest =>
    gather [] (.opening count source :: closeStretch stretch found) rest
  | .mark .closing source :: rest =>
    gather [] (.closing source :: closeStretch stretch found) rest

def tokens (s : Text) : List Token := gather [] [] (Scan.scan marker s)

theorem source_closeStretch (stretch : Text) (found : List Token) :
    (closeStretch stretch found).reverse.flatMap Token.source =
      found.reverse.flatMap Token.source ++ stretch.reverse := by
  unfold closeStretch
  split
  · rename_i h
    simp [List.isEmpty_iff.1 h]
  · simp [Token.source]

theorem source_gather (stretch : Text) (found : List Token) (pieces : List (Scan.Piece Marker)) :
    (gather stretch found pieces).flatMap Token.source =
      found.reverse.flatMap Token.source ++ stretch.reverse ++
        pieces.flatMap Scan.Piece.source := by
  induction pieces generalizing stretch found with
  | nil => simp [gather, source_closeStretch]
  | cons piece rest ih =>
    cases piece with
    | plain c => simp [gather, ih, Scan.Piece.source]
    | mark meaning source =>
      cases meaning with
      | opening count =>
        simp only [gather, ih, List.reverse_cons, List.flatMap_append, source_closeStretch]
        simp [Token.source, Scan.Piece.source]
      | closing =>
        simp only [gather, ih, List.reverse_cons, List.flatMap_append, source_closeStretch]
        simp [Token.source, Scan.Piece.source]

theorem source_tokens (s : Text) : (tokens s).flatMap Token.source = s := by
  simp [tokens, source_gather, Scan.source_scan]

/-! ## The forest -/

/-- A node of the forest. -/
inductive Node where
  | text (s : Text)
  | block (count openTag : Text) (children : List Node)
deriving Repr, Inhabited

/-- A block that is not closed yet: its marker, and the nodes that stand before it on its level, in
reverse. -/
structure OpenBlock where
  count : Text
  openTag : Text
  before : List Node

/-- Gives up the open blocks, innermost first: their markers become texts on their own level. -/
def abandon (level : List Node) : List OpenBlock → List Node
  | [] => level.reverse
  | b :: rest => abandon (level ++ .text b.openTag :: b.before) rest

/-- Matches closing with opening markers. `level` holds the nodes of the innermost open level, in
reverse, and `stack` the open blocks, innermost first. -/
def matchTokens (level : List Node) (stack : List OpenBlock) : List Token → List Node
  | [] => abandon level stack
  | .text s :: rest => matchTokens (.text s :: level) stack rest
  | .opening count source :: rest => matchTokens [] (⟨count, source, level⟩ :: stack) rest
  | .closing source :: rest =>
    match stack with
    | [] => matchTokens (.text source :: level) [] rest
    | b :: outer => matchTokens (.block b.count b.openTag level.reverse :: b.before) outer rest

def parse (s : Text) : List Node := matchTokens [] [] (tokens s)

/-! ## Expanding -/

/-- The number of repetitions that a count stands for: none where it is no positive integer. -/
def repetitions (count : Text) : Nat :=
  match Integer.read count with
  | .ok n => n.toNat
  | .error _ => 0

/-- The greatest count and the greatest length of a text. -/
def sizeLimit : Nat := 0x7fffffffffffffff

/-- Why a forest cannot be expanded. -/
inductive Overflow where
  /-- A count is beyond the limit. -/
  | count
  /-- The repeated children of a block are beyond the limit. -/
  | block
  /-- The nodes of a level together are beyond the limit. -/
  | level
deriving DecidableEq, Repr

def Overflow.message : Overflow → Text
  | .count => "cannot fit 'int' into an index-sized integer".toList
  | .block => "repeated string is too long".toList
  | .level => "join() result is too long for a Python string".toList

def repeatedLength (count length : Nat) : Except Overflow Nat :=
  if count > sizeLimit then .error .count
  else if count * length > sizeLimit then .error .block
  else .ok (count * length)

/-- The length of the nodes' expansion; `total` is the length of what stands before them on their
level. -/
def measure (total : Nat) : List Node → Except Overflow Nat
  | [] => if total > sizeLimit then .error .level else .ok total
  | .text s :: rest => measure (total + s.length) rest
  | .block count _ children :: rest =>
    match measure 0 children with
    | .error e => .error e
    | .ok inner =>
      match repeatedLength (repetitions count) inner with
      | .error e => .error e
      | .ok n => measure (total + n) rest

/-- Puts a text, reversed, `n` times in front of `out`. -/
def pushTimes (s : Text) : Nat → Text → Text
  | 0, out => out
  | n + 1, out => pushTimes s n (s.reverseAux out)

/-- The text of the nodes, in reverse and in front of `out`. -/
def writeOnto (out : Text) : List Node → Text
  | [] => out
  | .text s :: rest => writeOnto (s.reverseAux out) rest
  | .block count _ children :: rest =>
    let inner := (writeOnto [] children).reverse
    writeOnto (if inner.isEmpty then out else pushTimes inner (repetitions count) out) rest

def write (nodes : List Node) : Text := (writeOnto [] nodes).reverse

/-- The text with every block repeated; its length is found before it is written. -/
def expand (s : Text) : Except Overflow Text :=
  if Text.contains ['\x7b', '\x7b'] s then
    let nodes := parse s
    (measure 0 nodes).map fun _ => write nodes
  else .ok s

end Sitewright.Repeat
