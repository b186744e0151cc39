import Sitewright.Text.Utf8
import Sitewright.Yaml.Scalar
/-!
# Tokens of a settings document

A document is cut into tokens: the marks of documents, of block and flow collections, of keys and
values, and scalars with their anchors and tags. Where a block begins and ends follows from
indentation; that a scalar is a key is known only when a colon follows it on the same line, so the
token for the key is put in front of it then.
-/
set_option autoImplicit false

namespace Sitewright.Yaml

/-- A token of a document. -/
inductive Token where
  | version (major : Nat)
  | tagHandle (handle uri : Text)
  | otherDirective
  | documentStart
  | documentEnd
  | blockSequence
  | blockMapping
  | blockEnd
  | flowSequence
  | flowSequenceEnd
  | flowMapping
  | flowMappingEnd
  | entry
  | comma
  | key
  | value
  | alias (name : Text)
  | anchor (name : Text)
  | tag (handle : Option Text) (rest : Text)
  | scalar (text : Text) (plain : Bool)
deriving DecidableEq, Repr

/-! ## Directives, anchors and tags -/

def isUriChar (c : Char) : Bool := c.isAlphanum || List.elem c "-;/?:@&=+$,_.!~*'()[]%".toList

def uriEscapes : Nat → Bytes → Cursor → Except Problem (Bytes × Cursor)
  | 0, _, _ => .error .malformed
  | fuel + 1, out, c =>
    match c.rest with
    | '%' :: a :: b :: _ =>
      match Text.hexDigit? a, Text.hexDigit? b with
      | some hi, some lo => uriEscapes fuel (out ++ [UInt8.ofNat (16 * hi + lo)]) (c.forward 3)
      | _, _ => .error .malformed
    | '%' :: _ => .error .malformed
    | _ => .ok (out, c)

def uriFrom : Nat → Text → Cursor → Except Problem (Text × Cursor)
  | 0, _, _ => .error .malformed
  | fuel + 1, out, c =>
    if c.peek = '%' then
      match uriEscapes c.bound [] c with
      | .error e => .error e
      | .ok (bytes, c) =>
        match Utf8.decode bytes with
        | .ok s => uriFrom fuel (out ++ s) c
        | .error _ => .error .malformed
    else if isUriChar c.peek then uriFrom fuel (out ++ [c.peek]) c.step
    else if out.isEmpty then .error .malformed
    else .ok (out, c)

def readUri (c : Cursor) : Except Problem (Text × Cursor) := uriFrom c.bound [] c

/-- Reads the handle of a tag: letters between two exclamation marks, or a single mark where no letter
follows it. -/
def readHandle (c : Cursor) : Except Problem (Text × Cursor) :=
  if c.peek ≠ '!' then .error .malformed
  else
    let c := c.step
    if c.peek = ' ' then .ok (['!'], c)
    else
      let name := c.run isNameChar
      let c := c.forward name.length
      if c.peek = '!' then .ok ('!' :: name ++ ['!'], c.step) else .error .malformed

def readNumber (c : Cursor) : Except Problem (Nat × Cursor) :=
  let digits := c.run Char.isDigit
  if digits.isEmpty then .error .malformed
  else .ok (digits.foldl (fun n d => 10 * n + (d.toNat - 48)) 0, c.forward digits.length)

def readDirective (c : Cursor) : Except Problem (Token × Cursor) := do
  let name := c.run isNameChar
  let c := c.forward name.length
  if name.isEmpty || !isSpaceOrEnd c.peek then throw .malformed
  if name = "YAML".toList then
    let (major, c) ← readNumber c.skipSpaces
    if c.peek ≠ '.' then throw .malformed
    let (_, c) ← readNumber c.step
    if !isSpaceOrEnd c.peek then throw .malformed
    return (.version major, ← c.skipComment)
  else if name = "TAG".toList then
    let (handle, c) ← readHandle c.skipSpaces
    if c.peek ≠ ' ' then throw .malformed
    let (uri, c) ← readUri c.skipSpaces
    if !isSpaceOrEnd c.peek then throw .malformed
    return (.tagHandle handle uri, ← c.skipComment)
  else
    let c := c.skip fun ch => !isLineEnd ch
    return (.otherDirective, ← c.skipComment)

/-- Reads the name of an anchor or an alias behind its sign. -/
def readAnchor (c : Cursor) : Except Problem (Text × Cursor) :=
  let c := c.step
  let name := c.run isNameChar
  let c := c.forward name.length
  if name.isEmpty || !(isGap c.peek || List.elem c.peek "?:,]\x7d%@\x60".toList) then
    .error .malformed
  else .ok (name, c)

/-- The tag at the place has a handle of its own: an exclamation mark follows before the next space. -/
def hasHandle (c : Cursor) : Bool :=
  List.elem '!' (c.step.run fun ch => !isSpaceOrEnd ch)

def readTag (c : Cursor) : Except Problem (Token × Cursor) := do
  let next := c.peekAt 1
  let (token, c) ←
    if next = '<' then do
      let (uri, c) ← readUri (c.forward 2)
      if c.peek ≠ '>' then throw .malformed
      pure (Token.tag none uri, c.step)
    else if isGap next then pure (Token.tag none ['!'], c.step)
    else do
      let (handle, c) ← if hasHandle c then readHandle c else pure (['!'], c.step)
      let (uri, c) ← readUri c
      pure (Token.tag (some handle) uri, c)
  if isSpaceOrEnd c.peek then return (token, c) else throw .malformed

/-! ## The scan -/

/-- A place at which a key may have begun: how many tokens stand before it, where it is, and whether
there has to be a key. -/
structure PossibleKey where
  tokens : Nat
  required : Bool
  index : Nat
  line : Nat
  column : Nat
deriving Repr

/-- The state of a scan: the place, the tokens so far, the latest one first, and their number, how many
flow collections are open, the column of the open block and those around it, whether a key may begin
here, and the possible keys by how many flow collections are open. A column is counted from one, and
none is zero. -/
structure Scan where
  place : Cursor
  tokens : List Token
  count : Nat
  flow : Nat
  indent : Nat
  outer : List Nat
  keyAllowed : Bool
  keys : List (Nat × PossibleKey)
deriving Repr

namespace Scan

def keyLimit : Nat := 1024

/-- The column at the place, counted from one. -/
def column (s : Scan) : Nat := s.place.column + 1

def push (s : Scan) (t : Token) : Scan := { s with tokens := t :: s.tokens, count := s.count + 1 }

/-- The scan with a token behind the first ones, of which there are `place`. -/
def insertAt (s : Scan) (place : Nat) (t : Token) : Scan :=
  let later := s.count - place
  { s with tokens := s.tokens.take later ++ t :: s.tokens.drop later, count := s.count + 1 }

def key? (s : Scan) : Option PossibleKey :=
  (s.keys.find? fun k => decide (k.1 = s.flow)).map Prod.snd

/-- The scan without a possible key of the open collection. -/
def forgetKey (s : Scan) : Scan :=
  { s with keys := s.keys.filter fun k => !decide (k.1 = s.flow) }

/-- Gives up the possible key of the open collection, which must not be required. -/
def dropKey (s : Scan) : Except Problem Scan :=
  match s.key? with
  | some k => if k.required then .error .malformed else .ok s.forgetKey
  | none => .ok s

/-- Gives up the possible keys that the place is too far from: on another line, or too many characters
before it. -/
def dropStaleKeys (s : Scan) : Except Problem Scan :=
  let isStale := fun (k : PossibleKey) =>
    k.line ≠ s.place.line || decide (s.place.index - k.index > keyLimit)
  if s.keys.any fun k => isStale k.2 && k.2.required then .error .malformed
  else .ok { s with keys := s.keys.filter fun k => !isStale k.2 }

def noteKey (s : Scan) : Except Problem Scan :=
  if s.keyAllowed then do
    let required := s.flow = 0 && s.indent = s.column
    let s ← s.dropKey
    let key : PossibleKey :=
      ⟨s.count, required, s.place.index, s.place.line, s.place.column⟩
    return { s with keys := (s.flow, key) :: s.keys }
  else .ok s

/-- Ends the blocks that are indented more than a column; `fuel` is their number at most. -/
def unwind (column : Nat) : Nat → Scan → Scan
  | 0, s => s
  | fuel + 1, s =>
    if s.indent > column then
      let s := s.push .blockEnd
      unwind column fuel { s with indent := s.outer.headD 0, outer := s.outer.tail }
    else s

/-- Ends blocks, unless flow collections are open. -/
def unwindTo (s : Scan) (column : Nat) : Scan :=
  if s.flow = 0 then unwind column (s.outer.length + 1) s else s

/-- Opens a block at a column, if it is indented more than the open one. -/
def openBlock (s : Scan) (column : Nat) : Bool × Scan :=
  if s.indent < column then (true, { s with indent := column, outer := s.indent :: s.outer })
  else (false, s)

/-- Goes on to the next token, behind spaces, comments and line ends. -/
def toNextToken : Nat → Scan → Scan
  | 0, s => s
  | fuel + 1, s =>
    let c := s.place
    let c := if c.index = 0 && c.peek = '\ufeff' then c.step else c
    let c := c.skipSpaces
    let c := if c.peek = '#' then c.skip fun ch => !isLineEnd ch else c
    if isBreak c.peek then
      toNextToken fuel { s with place := c.lineBreak.2, keyAllowed := s.keyAllowed || s.flow = 0 }
    else { s with place := c }

/-! ### Tokens by their first characters -/

/-- A mark of one character that leaves no possible key. -/
def mark (s : Scan) (t : Token) (keyAllowed : Bool) : Except Problem Scan := do
  let s ← s.dropKey
  return { s.push t with place := s.place.step, keyAllowed := keyAllowed }

def openFlow (s : Scan) (t : Token) : Except Problem Scan := do
  let s ← s.noteKey
  return { s.push t with place := s.place.step, flow := s.flow + 1, keyAllowed := true }

def closeFlow (s : Scan) (t : Token) : Except Problem Scan :=
  if s.flow = 0 then .error .malformed
  else do
    let s ← s.mark t false
    return { s with flow := s.flow - 1 }

def blockEntry (s : Scan) : Except Problem Scan := do
  let s ←
    if s.flow = 0 then
      if s.keyAllowed then
        let (opened, s) := s.openBlock s.column
        pure (if opened then s.push .blockSequence else s)
      else throw .malformed
    else pure s
  s.mark .entry true

def explicitKey (s : Scan) : Except Problem Scan := do
  let s ←
    if s.flow = 0 then
      if s.keyAllowed then
        let (opened, s) := s.openBlock s.column
        pure (if opened then s.push .blockMapping else s)
      else throw .malformed
    else pure s
  s.mark .key (s.flow = 0)

/-- The colon of a value. What stands before it on the line becomes its key. -/
def valueMark (s : Scan) : Except Problem Scan := do
  match s.key? with
  | some k =>
    let s := s.forgetKey
    let (opened, s) := if s.flow = 0 then s.openBlock (k.column + 1) else (false, s)
    let s := s.insertAt k.tokens .key
    let s := if opened then s.insertAt k.tokens .blockMapping else s
    return { s.push .value with place := s.place.step, keyAllowed := false }
  | none =>
    let s ←
      if s.flow = 0 then
        if s.keyAllowed then
          let (opened, s) := s.openBlock s.column
          pure (if opened then s.push .blockMapping else s)
        else throw .malformed
      else pure s
    s.mark .value (s.flow = 0)

/-- A scalar, an alias, an anchor or a tag that a key may begin with. -/
def keyStart (s : Scan) (reader : Cursor → Except Problem (Token × Cursor)) :
    Except Problem Scan := do
  let s ← s.noteKey
  let (t, c) ← reader s.place
  return { s.push t with place := c, keyAllowed := false }

def plainScalar (s : Scan) : Except Problem Scan := do
  let s ← s.noteKey
  let (text, c, broken) := plainFrom (s.flow ≠ 0) s.indent s.place.bound [] false s.place
  return { s.push (.scalar text true) with place := c, keyAllowed := broken }

def blockScalar (s : Scan) : Except Problem Scan := do
  let s ← s.dropKey
  let (text, c) ← readBlock (max s.indent 1) s.place
  return { s.push (.scalar text false) with place := c, keyAllowed := true }

/-- The mark of a document, or a directive. -/
def documentMark (s : Scan) : Except Problem Scan := (s.unwindTo 0).dropKey

def atPlain (s : Scan) : Bool :=
  let ch := s.place.peek
  let next := s.place.peekAt 1
  !(isGap ch || List.elem ch "-?:,[]\x7b\x7d#&*!|>'\"%@\x60".toList) ||
    (!isGap next && (ch = '-' || (s.flow = 0 && (ch = '?' || ch = ':'))))

/-- Reads the next token, to which the scan has gone. -/
def next (s : Scan) : Except Problem Scan := do
  let s ← s.dropStaleKeys
  let s := s.unwindTo s.column
  let c := s.place
  let ch := c.peek
  let gapNext := isGap (c.peekAt 1)
  if ch = '%' && c.column = 0 then
    let s ← s.documentMark
    let (t, c) ← readDirective c.step
    return { s.push t with place := c, keyAllowed := false }
  else if c.column = 0 && c.atSeparator then
    let s ← s.documentMark
    let t := if ch = '-' then Token.documentStart else .documentEnd
    return { s.push t with place := c.forward 3, keyAllowed := false }
  else if ch = '[' then s.openFlow .flowSequence
  else if ch = '\x7b' then s.openFlow .flowMapping
  else if ch = ']' then s.closeFlow .flowSequenceEnd
  else if ch = '\x7d' then s.closeFlow .flowMappingEnd
  else if ch = ',' then s.mark .comma true
  else if ch = '-' && gapNext then s.blockEntry
  else if ch = '?' && (s.flow ≠ 0 || gapNext) then s.explicitKey
  else if ch = ':' && (s.flow ≠ 0 || gapNext) then s.valueMark
  else if ch = '*' then s.keyStart fun c => (readAnchor c).map fun r => (.alias r.1, r.2)
  else if ch = '&' then s.keyStart fun c => (readAnchor c).map fun r => (.anchor r.1, r.2)
  else if ch = '!' then s.keyStart readTag
  else if (ch = '|' || ch = '>') && s.flow = 0 then s.blockScalar
  else if ch = '\'' || ch = '"' then
    s.keyStart fun c => (readQuoted c).map fun r => (.scalar r.1 false, r.2)
  else if s.atPlain then s.plainScalar
  else throw .malformed

def all : Nat → Scan → Except Problem (List Token)
  | 0, _ => .error .malformed
  | fuel + 1, s =>
    let s := toNextToken s.place.bound s
    if s.place.rest.isEmpty then
      match s.dropStaleKeys with
      | .error e => .error e
      | .ok s => s.documentMark.map fun s => s.tokens.reverse
    else
      match s.next with
      | .error e => .error e
      | .ok s => all fuel s

end Scan

def tokens (s : Text) : Except Problem (List Token) :=
  if s.all isAllowed then
    Scan.all (s.length + 2) ⟨Cursor.start s, [], 0, 0, 0, [], true, []⟩
  else .error .malformed

end Sitewright.Yaml
