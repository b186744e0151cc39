import Sitewright.Yaml.Node
import Sitewright.Yaml.Typed
/-!
# Settings documents

The value of a document is made of its nodes. A mapping may take over the members of other mappings,
behind which its own members count. Of several problems the one that is least deep counts, and of those
the first.
-/
set_option autoImplicit false

namespace Sitewright.Yaml

/-- A problem, and how many collections it lies within. -/
structure Fault where
  depth : Nat
  problem : Problem
deriving DecidableEq, Repr

/-- A result, or the fault that counts. -/
abbrev Checked (α : Type) := Except Fault α

namespace Checked

def malformed {α : Type} (depth : Nat) : Checked α := .error ⟨depth, .malformed⟩

def both {α β : Type} (a : Checked α) (b : Checked β) : Checked (α × β) :=
  match a, b with
  | .ok a, .ok b => .ok (a, b)
  | .error e, .ok _ => .error e
  | .ok _, .error e => .error e
  | .error e, .error f => .error (if f.depth < e.depth then f else e)

def cons {α : Type} (a : Checked α) (rest : Checked (List α)) : Checked (List α) :=
  (both a rest).map fun r => r.1 :: r.2

/-- Two results, one behind the other. -/
def append {α : Type} (a b : Checked (List α)) : Checked (List α) :=
  (both a b).map fun r => r.1 ++ r.2

def within {α : Type} (a : Checked α) : Checked α :=
  a.mapError fun f => { f with depth := f.depth + 1 }

end Checked

namespace Node

def tag : Node → Tag
  | .scalar t _ => t
  | .sequence t _ => t
  | .mapping t _ => t

def typed (tag : Tag) (text : Text) : Checked Scalar :=
  match tag.read text with
  | .ok s => .ok s
  | .error e => .error ⟨0, e⟩

mutual
/-- The text of a node that is said to be a scalar. Of a mapping it is that of the member which is marked
as its value. -/
def textOf : Node → Checked Text
  | .scalar _ text => .ok text
  | .sequence _ _ => .malformed 0
  | .mapping _ members => textIn members

/-- The text of the member that is marked as the value of a mapping. -/
def textIn : List (Node × Node) → Checked Text
  | [] => .malformed 0
  | (key, value) :: rest => if key.tag = .value then textOf value else textIn rest
end

mutual
/-- What is taken over from a node is the members of mappings. -/
def isMergeable : Node → Bool
  | .scalar _ _ => false
  | .sequence _ items => areMergeable items
  | .mapping _ members => canMerge members

def areMergeable : List Node → Bool
  | [] => true
  | .mapping _ members :: rest => canMerge members && areMergeable rest
  | _ :: _ => false

/-- What a mapping takes over is the members of mappings. -/
def canMerge : List (Node × Node) → Bool
  | [] => true
  | (key, value) :: rest => (key.tag ≠ .merge || isMergeable value) && canMerge rest
end

/-- The key of a mapping that a node stands for: a scalar. The mark for a value is a text here. -/
def keyOf (node : Node) (value : Checked Value) : Checked Scalar :=
  match node with
  | .scalar .value text => .ok (.string text)
  | _ =>
    match value with
    | .ok (.scalar s) => .ok s
    | .ok _ => .malformed 0
    | .error f => if node.tag.isCollection then .malformed 0 else .error f

mutual
def valueOf : Node → Checked Value
  | .scalar tag text =>
    if tag.isCollection then .malformed 1 else (typed tag text).map Value.scalar
  | .sequence tag items =>
    match tag with
    | .sequence => .within ((itemsOf items).map Value.sequence)
    | .pairs => .within ((pairsOf items).map Value.pairs)
    | _ => .malformed (if tag.isCollection then 1 else 0)
  | .mapping tag members =>
    match tag with
    | .mapping =>
      if canMerge members then
        .within <| (Checked.append (takenIn members) (ownIn members)).map fun entries =>
          Value.mapping (membersOf entries)
      else .malformed 1
    | .set =>
      if canMerge members then
        .within <| (Checked.append (takenIn members) (ownIn members)).map fun entries =>
          Value.set ((membersOf entries).map Prod.fst)
      else .malformed 1
    | _ =>
      if tag.isCollection then .malformed 1
      else do
        let text ← textIn members
        (typed tag text).map Value.scalar

def itemsOf : List Node → Checked (List Value)
  | [] => .ok []
  | item :: rest => .cons (valueOf item) (itemsOf rest)

/-- The values of a sequence of mappings that have one member each. -/
def pairsOf : List Node → Checked (List (Value × Value))
  | [] => .ok []
  | .mapping _ [(key, value)] :: rest =>
    .cons (.both (valueOf key) (valueOf value)) (pairsOf rest)
  | _ :: _ => .malformed 0

def ownIn : List (Node × Node) → Checked (List (Scalar × Value))
  | [] => .ok []
  | (key, value) :: rest =>
    if key.tag = .merge then ownIn rest
    else .cons (.both (keyOf key (valueOf key)) (valueOf value)) (ownIn rest)

def takenIn : List (Node × Node) → Checked (List (Scalar × Value))
  | [] => .ok []
  | (key, value) :: rest =>
    if key.tag = .merge then .append (takenFrom value) (takenIn rest) else takenIn rest

/-- The entries of a mapping or of several ones that are taken over. -/
def takenFrom : Node → Checked (List (Scalar × Value))
  | .scalar _ _ => .malformed 0
  | .sequence _ items => takenFromAll items
  | .mapping _ members => .append (takenIn members) (ownIn members)

/-- The entries of several mappings that are taken over. The first mapping counts before the others, so
its entries stand last. -/
def takenFromAll : List Node → Checked (List (Scalar × Value))
  | [] => .ok []
  | .mapping _ members :: rest =>
    .append (takenFromAll rest) (.append (takenIn members) (ownIn members))
  | _ :: _ => .malformed 0
end

end Node

/-- The value of a document, which is null where it holds nothing. -/
def read (s : Text) : Except Problem Value := do
  let tokens ← tokens s
  match ← readDocument tokens with
  | none => return .scalar .null
  | some node => (Node.valueOf node).mapError Fault.problem

end Sitewright.Yaml
