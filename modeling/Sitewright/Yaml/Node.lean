import Sitewright.Yaml.Implied
import Sitewright.Yaml.Token
/-!
# Nodes of a settings document

The tokens of a document form a tree of scalars, sequences and mappings, each with its tag. An alias
stands for the node that its anchor has named before; a node cannot stand within itself. A document is
one tree, or nothing at all.
-/
set_option autoImplicit false

namespace Sitewright.Yaml

/-- A node of a document. -/
inductive Node where
  | scalar (tag : Tag) (text : Text)
  | sequence (tag : Tag) (items : List Node)
  | mapping (tag : Tag) (members : List (Node × Node))
deriving Repr

def Node.empty : Node := .scalar .null []

/-! ## Reading nodes -/

/-- What is left to be read: the tokens, the nodes with their anchors (none for one that is not yet
complete), and the tag handles of the document. -/
structure Pending where
  tokens : List Token
  anchors : List (Text × Option Node)
  handles : List (Text × Text)
deriving Repr

abbrev Parse (α : Type) := Pending → Except Problem (α × Pending)

namespace Pending

def peek (p : Pending) : Option Token := p.tokens.head?

def isAt (p : Pending) (tokens : List Token) : Bool :=
  match p.peek with
  | some t => decide (t ∈ tokens)
  | none => false

def step (p : Pending) : Pending := { p with tokens := p.tokens.tail }

def expect (p : Pending) (t : Token) : Except Problem Pending :=
  if p.peek = some t then .ok p.step else .error .malformed

def aliased (p : Pending) (name : Text) : Except Problem Node :=
  match p.anchors.find? fun a => decide (a.1 = name) with
  | some (_, some node) => .ok node
  | _ => .error .malformed

def open? (p : Pending) (anchor : Option Text) : Except Problem Pending :=
  match anchor with
  | none => .ok p
  | some name =>
    if p.anchors.any fun a => decide (a.1 = name) then .error .malformed
    else .ok { p with anchors := (name, none) :: p.anchors }

def close (p : Pending) (anchor : Option Text) (node : Node) : Pending :=
  match anchor with
  | none => p
  | some name =>
    { p with anchors := p.anchors.map fun a => if a.1 = name then (name, some node) else a }

def address (p : Pending) (handle : Option Text) (rest : Text) : Except Problem Text :=
  match handle with
  | none => .ok rest
  | some handle =>
    match p.handles.find? fun h => decide (h.1 = handle) with
    | some (_, uri) => .ok (uri ++ rest)
    | none => .error .malformed

end Pending

/-- The anchor and the address of the tag in front of a node, in either order. -/
def properties (p : Pending) : Except Problem (Option Text × Option Text × Pending) :=
  match p.tokens with
  | .anchor name :: .tag handle rest :: tokens | .tag handle rest :: .anchor name :: tokens =>
    (p.address handle rest).map fun tag => (some name, some tag, { p with tokens := tokens })
  | .anchor name :: tokens => .ok (some name, none, { p with tokens := tokens })
  | .tag handle rest :: tokens =>
    (p.address handle rest).map fun tag => (none, some tag, { p with tokens := tokens })
  | _ => .ok (none, none, p)

/-- The tag of a scalar. Where it has none, or only an exclamation mark, its text tells, unless it is
written in quotes and without a mark. -/
def scalarTag (address : Option Text) (text : Text) (plain : Bool) : Tag :=
  match address with
  | some a => if a = ['!'] then Tag.implied text else Tag.ofAddress a
  | none => if plain then Tag.implied text else .string

/-- The tag of a collection, which is `default` where it has none. -/
def collectionTag (address : Option Text) (default : Tag) : Tag :=
  match address with
  | some a => if a = ['!'] then default else Tag.ofAddress a
  | none => default

/-- Where a node stands: whether block collections are allowed there, and whether entries of a sequence
may stand there without an indentation of their own. -/
inductive Place where
  | flow
  | block
  | mappingPart
deriving DecidableEq, Repr

mutual
def readNode (place : Place) : Nat → Parse Node
  | 0, _ => .error .malformed
  | fuel + 1, p =>
    match p.peek with
    | some (.alias name) => (p.aliased name).map fun node => (node, p.step)
    | _ => do
      let (anchor, address, p) ← properties p
      let p ← p.open? anchor
      let (node, p) ← readContent place anchor.isSome address fuel p
      return (node, p.close anchor node)

def readContent (place : Place) (anchored : Bool) (address : Option Text) : Nat → Parse Node
  | 0, _ => .error .malformed
  | fuel + 1, p =>
    match p.peek with
    | some (.scalar text plain) => .ok (.scalar (scalarTag address text plain) text, p.step)
    | some .flowSequence => do
      let (items, p) ← readFlowSequence true fuel p.step
      return (.sequence (collectionTag address .sequence) items, p)
    | some .flowMapping => do
      let (members, p) ← readFlowMapping true fuel p.step
      return (.mapping (collectionTag address .mapping) members, p)
    | t =>
      if t = some .entry && place = .mappingPart then do
        let (items, p) ← readEntries fuel p
        return (.sequence (collectionTag address .sequence) items, p)
      else if t = some .blockSequence && place ≠ .flow then do
        let (items, p) ← readBlockSequence fuel p.step
        return (.sequence (collectionTag address .sequence) items, p)
      else if t = some .blockMapping && place ≠ .flow then do
        let (members, p) ← readBlockMapping fuel p.step
        return (.mapping (collectionTag address .mapping) members, p)
      else if anchored || address.isSome then .ok (.scalar (scalarTag address [] true) [], p)
      else .error .malformed

/-- Reads a node, which is empty where one of some tokens follows. -/
def readOptional (place : Place) (stops : List Token) : Nat → Parse Node
  | 0, _ => .error .malformed
  | fuel + 1, p => if p.isAt stops then .ok (.empty, p) else readNode place fuel p

/-- Reads the node of a value, behind its colon; it is empty where there is no colon. -/
def readValue (place : Place) (stops : List Token) : Nat → Parse Node
  | 0, _ => .error .malformed
  | fuel + 1, p =>
    if p.peek = some .value then readOptional place stops fuel p.step else .ok (.empty, p)

/-- Reads the entries of a block sequence, and its end. -/
def readBlockSequence : Nat → Parse (List Node)
  | 0, _ => .error .malformed
  | fuel + 1, p =>
    if p.peek = some .entry then do
      let (item, p) ← readOptional .block [.entry, .blockEnd] fuel p.step
      let (items, p) ← readBlockSequence fuel p
      return (item :: items, p)
    else (p.expect .blockEnd).map fun p => ([], p)

/-- Reads the entries of a sequence without an indentation of its own. -/
def readEntries : Nat → Parse (List Node)
  | 0, _ => .error .malformed
  | fuel + 1, p =>
    if p.peek = some .entry then do
      let (item, p) ← readOptional .block [.entry, .key, .value, .blockEnd] fuel p.step
      let (items, p) ← readEntries fuel p
      return (item :: items, p)
    else .ok ([], p)

/-- Reads the members of a block mapping, and its end. -/
def readBlockMapping : Nat → Parse (List (Node × Node))
  | 0, _ => .error .malformed
  | fuel + 1, p =>
    if p.peek = some .key then do
      let (key, p) ← readOptional .mappingPart [.key, .value, .blockEnd] fuel p.step
      let (value, p) ← readValue .mappingPart [.key, .value, .blockEnd] fuel p
      let (members, p) ← readBlockMapping fuel p
      return ((key, value) :: members, p)
    else (p.expect .blockEnd).map fun p => ([], p)

/-- Reads the items of a flow sequence, and its end. -/
def readFlowSequence (first : Bool) : Nat → Parse (List Node)
  | 0, _ => .error .malformed
  | fuel + 1, p =>
    if p.peek = some .flowSequenceEnd then .ok ([], p.step)
    else do
      let p ← if first then pure p else p.expect .comma
      if p.peek = some .key then
        let (key, p) ← readOptional .flow [.value, .comma, .flowSequenceEnd] fuel p.step
        let (value, p) ← readValue .flow [.comma, .flowSequenceEnd] fuel p
        let (items, p) ← readFlowSequence false fuel p
        return (.mapping .mapping [(key, value)] :: items, p)
      else if p.peek = some .flowSequenceEnd then return ([], p.step)
      else
        let (item, p) ← readNode .flow fuel p
        let (items, p) ← readFlowSequence false fuel p
        return (item :: items, p)

/-- Reads the members of a flow mapping, and its end. -/
def readFlowMapping (first : Bool) : Nat → Parse (List (Node × Node))
  | 0, _ => .error .malformed
  | fuel + 1, p =>
    if p.peek = some .flowMappingEnd then .ok ([], p.step)
    else do
      let p ← if first then pure p else p.expect .comma
      if p.peek = some .key then
        let (key, p) ← readOptional .flow [.value, .comma, .flowMappingEnd] fuel p.step
        let (value, p) ← readValue .flow [.comma, .flowMappingEnd] fuel p
        let (members, p) ← readFlowMapping false fuel p
        return ((key, value) :: members, p)
      else if p.peek = some .flowMappingEnd then return ([], p.step)
      else
        let (key, p) ← readNode .flow fuel p
        let (members, p) ← readFlowMapping false fuel p
        return ((key, .empty) :: members, p)
end

/-! ## Documents -/

/-- The directives in front of a document: the tag handles that they give, behind those that every
document has. A handle is given once, and so is the version, which is the first one. -/
def directives (versioned : Bool) (handles : List (Text × Text)) :
    List Token → Except Problem (List (Text × Text) × List Token)
  | .version major :: tokens =>
    if versioned || major ≠ 1 then .error .malformed else directives true handles tokens
  | .tagHandle handle uri :: tokens =>
    if handles.any fun h => decide (h.1 = handle) then .error .malformed
    else directives versioned (handles ++ [(handle, uri)]) tokens
  | .otherDirective :: tokens => directives versioned handles tokens
  | tokens => .ok (handles, tokens)

def standardHandles : List (Text × Text) :=
  [(['!'], ['!']), (['!', '!'], "tag:yaml.org,2002:".toList)]

def Token.isDocumentMark : Token → Bool
  | .version _ | .tagHandle _ _ | .otherDirective | .documentStart | .documentEnd => true
  | _ => false

/-- Reads the tree of a document whose marks are left out. -/
def readTree (handles : List (Text × Text)) (tokens : List Token) : Except Problem Node := do
  let (node, p) ← readNode .block (2 * tokens.length + 2) ⟨tokens, [], handles⟩
  -- behind the tree stand marks of the end only
  if p.tokens.all fun t => decide (t = .documentEnd) then return node else throw .malformed

/-- The tree of a document, none where it holds nothing. -/
def readDocument (tokens : List Token) : Except Problem (Option Node) :=
  match tokens with
  | [] => .ok none
  | first :: _ =>
    if first.isDocumentMark && first ≠ .documentEnd then do
      let (handles, tokens) ← directives false [] tokens
      let all := handles ++ standardHandles
      match tokens with
      | .documentStart :: rest =>
        match rest with
        | [] => return some .empty
        | next :: _ =>
          if next.isDocumentMark then
            if rest.all fun t => decide (t = .documentEnd) then return some .empty
            else throw .malformed
          else return some (← readTree all rest)
      | _ => throw .malformed
    else do return some (← readTree standardHandles tokens)

end Sitewright.Yaml
