import Sitewright.Proofs.Json.RoundTrip
import Sitewright.Proofs.Template.Lookup
import Sitewright.Template.VariableFile
/-!
# Arrays and objects in place of variables

A variable that is an array or an object is replaced by a document. Reading the document gives the value back, so
different values are replaced by different texts.

* `Variable.Finds`: a value of this kind is found at a path.

Main statement: `Variable.resolve_composite`.
-/
set_option autoImplicit false

namespace Sitewright

def Json.Value.isComposite : Value → Bool
  | .array _ => true
  | .object _ => true
  | _ => false

namespace Variable

open Json (Value)

variable {path segment s : Text} {segments : List Text} {tree : Variables} {u v : Value}

/-! ## Distinct names -/

theorem Names.distinct (h : Names segment u v) (hu : u.Distinct) : v.Distinct := by
  cases h with
  | member hdot hfirst =>
    cases hu with
    | object hnames hmembers => exact hmembers _ (List.mem_append_right _ List.mem_cons_self)
  | item hdigits hshort =>
    cases hu with
    | array hitems => exact hitems _ (List.mem_append_right _ List.mem_cons_self)

theorem Leads.distinct (h : Leads segments u v) (hu : u.Distinct) : v.Distinct := by
  induction h with
  | here => exact hu
  | step hstep hrest ih => exact ih (hstep.distinct hu)

theorem distinct_of_treeOfText (h : treeOfText path s = .ok tree) : (Value.object tree).Distinct := by
  unfold treeOfText at h
  split at h
  · rename_i members hread
    cases h
    exact Json.distinct_of_read hread
  all_goals cases h

/-! ## The text of an array or an object -/

/-- An array or an object is found at the path, with no double in it and no integer of more digits than are read. No
object in the tree has two members of one name. -/
structure Finds (path : Text) (tree : Variables) (v : Value) : Prop where
  found : lookup path tree = .ok (some v)
  composite : v.isComposite = true
  plain : v.Exact
  names : (Value.object tree).Distinct

theorem valueText_of_composite (h : v.isComposite = true) : valueText v = Json.Style.compact.write v := by
  cases v with
  | array items => rfl
  | object members => rfl
  | _ => cases h

theorem Finds.resolve (h : Finds path tree v) : resolve path tree = .ok (Json.Style.compact.write v) := by
  rw [Variable.resolve, h.found, ← valueText_of_composite h.composite]
  rfl

theorem Finds.read (h : Finds path tree v) : Json.read (Json.Style.compact.write v) = .ok v :=
  Json.read_write Json.compact_parts h.plain ((lookup_eq_some_iff.1 h.found).distinct h.names)

/-- A variable that is an array or an object is replaced by a document that is read as the very same value. So texts are
different for values that are. All trees that are read have distinct names. -/
theorem resolve_composite :
    (∀ path s tree, treeOfText path s = .ok tree → (Value.object tree).Distinct) ∧
    (∀ path tree v, Finds path tree v → ∃ t, resolve path tree = .ok t ∧ Json.read t = .ok v) ∧
    ∀ path tree v path' tree' v', Finds path tree v → Finds path' tree' v' → v ≠ v' →
      resolve path tree ≠ resolve path' tree' := by
  refine ⟨fun _ _ _ h => distinct_of_treeOfText h, fun path tree v h => ⟨_, h.resolve, h.read⟩, ?_⟩
  intro path tree v path' tree' v' h h' hne htext
  rw [h.resolve, h'.resolve, Except.ok.injEq] at htext
  have hread := h.read
  rw [htext, h'.read, Except.ok.injEq] at hread
  exact hne hread.symm

def cardRow : List Value := [.int (-7), .null, .bool true, .object [], .string ['\t', '😀']]

/-- A card with a quoted and accented title on two lines, and with a row of other values. -/
def card : Json.Members := [("title".toList, .string "\"é\"\n\\".toList), ("row".toList, .array cardRow)]

def cardTree : Variables := [("CARD".toList, .object card)]

def cardText : Text := "\x7b\"title\":\"\\\"é\\\"\\n\\\\\",\"row\":[-7,null,true,\x7b\x7d,\"\\t😀\"]\x7d".toList

theorem cardTree_distinct : (Value.object cardTree).Distinct := by
  have hrow : (Value.array cardRow).Distinct := by
    refine .array ?_
    simp only [cardRow, List.forall_mem_cons]
    exact ⟨.int _, .null, .bool _, Json.distinct_empty, .string _, List.forall_mem_nil _⟩
  have hcard : (Value.object card).Distinct := by
    refine .object (by decide) ?_
    simp only [card, List.forall_mem_cons]
    exact ⟨.string _, hrow, List.forall_mem_nil _⟩
  refine .object (by decide) ?_
  simp only [cardTree, List.forall_mem_cons]
  exact ⟨hcard, List.forall_mem_nil _⟩

theorem cardRow_exact : (Value.array cardRow).Exact := by
  refine .array ?_
  simp only [cardRow, List.forall_mem_cons]
  exact ⟨.int (by decide), .null, .bool _, .object (List.forall_mem_nil _), .string _, List.forall_mem_nil _⟩

theorem finds_card : Finds "CARD".toList cardTree (.object card) := by
  refine ⟨by cbv, rfl, .object ?_, cardTree_distinct⟩
  simp only [card, List.forall_mem_cons]
  exact ⟨.string _, cardRow_exact, List.forall_mem_nil _⟩

theorem finds_row : Finds "CARD.row".toList cardTree (.array cardRow) :=
  ⟨by cbv, rfl, cardRow_exact, cardTree_distinct⟩

theorem resolve_composite_card :
    (treeOfText [] "\x7b\x7d".toList = .ok [] ∧ (Value.object []).Distinct) ∧
    (resolve "CARD".toList cardTree = .ok cardText ∧ Json.read cardText = .ok (.object card)) ∧
    (Value.object card ≠ .array cardRow ∧ resolve "CARD".toList cardTree ≠ resolve "CARD.row".toList cardTree) := by
  have hempty : treeOfText [] "\x7b\x7d".toList = .ok [] := by cbv
  have htext : resolve "CARD".toList cardTree = .ok cardText := by cbv
  have hne : Value.object card ≠ .array cardRow := by
    intro h
    cases h
  obtain ⟨t, ht, hread⟩ := resolve_composite.2.1 _ _ _ finds_card
  rw [htext, Except.ok.injEq] at ht
  refine ⟨⟨hempty, resolve_composite.1 _ _ _ hempty⟩, ⟨htext, ht ▸ hread⟩, hne, ?_⟩
  exact resolve_composite.2.2 _ _ _ _ _ _ finds_card finds_row hne

end Variable
end Sitewright
