import Sitewright.Proofs.Keyed
import Sitewright.Proofs.Text.Integer
import Sitewright.Proofs.Text.Splitting
import Sitewright.Template.Variable
/-!
# Where paths lead

A path goes from value to value, one segment at a time. A segment names a member of an object, whatever it looks like,
or an item of an array by its index, with digits of any script and zeros in front.

* `Variable.Names`: a segment names a value in another one.
* `Variable.Leads`: segments lead from a value to another one.

Main statement: `Variable.lookup_addresses`.
-/
set_option autoImplicit false

namespace Sitewright

namespace Variable

open Json (Value)

variable {segment p q : Text} {segments first second : List Text} {u v w : Value} {tree : Variables}

/-! ## One segment -/

/-- A segment without dots names a value: a member of an object, or the item of an array whose index it denotes. -/
inductive Names : Text → Value → Value → Prop
  | member {name : Text} {v : Value} {before after : Json.Members} (hdot : '.' ∉ name)
      (hfirst : name ∉ Keyed.keys before) : Names name (.object (before ++ (name, v) :: after)) v
  | item {digits : Text} {v : Value} {before after : List Value} (hdigits : Integer.Denotes digits before.length)
      (hshort : digits.length ≤ Integer.digitLimit) : Names digits (.array (before ++ v :: after)) v

theorem not_dot_of_isDigitLike {c : Char} (h : Text.isDigitLike c = true) : c ≠ '.' := by
  rintro rfl
  exact absurd h (by decide)

theorem Names.dotless (h : Names segment v w) : '.' ∉ segment := by
  cases h with
  | member hdot hfirst => exact hdot
  | item hdigits hshort =>
    exact fun hmem => not_dot_of_isDigitLike ((Integer.looksNumeric_iff.1 hdigits.looksNumeric).2 _ hmem) rfl

theorem step_object (name : Text) (members : Json.Members) :
    step name (.object members) = .ok (Keyed.get? name members) := rfl

theorem step_array (segment : Text) (items : List Value) : step segment (.array items) =
    if Text.looksNumeric segment = true then
      match Integer.read segment with
      | .ok n => .ok items[n.toNat]?
      | .error problem => .error ⟨segment, problem⟩
    else .ok none := rfl

theorem getElem?_eq_some_iff_append {α : Type} {xs : List α} {i : Nat} {x : α} :
    xs[i]? = some x ↔ ∃ before after, xs = before ++ x :: after ∧ before.length = i := by
  constructor
  · intro h
    obtain ⟨hi, rfl⟩ := List.getElem?_eq_some_iff.1 h
    exact ⟨xs.take i, xs.drop (i + 1), by rw [← List.drop_eq_getElem_cons hi, List.take_append_drop],
      List.length_take_of_le hi.le⟩
  · rintro ⟨before, after, rfl, rfl⟩
    simp

/-- A step leads to the value that its segment names. -/
theorem step_eq_some_iff (hdot : '.' ∉ segment) : step segment v = .ok (some w) ↔ Names segment v w := by
  constructor
  · intro h
    cases v with
    | object members =>
      rw [step_object, Except.ok.injEq, Keyed.get?_eq_some_iff] at h
      obtain ⟨before, after, rfl, hfirst⟩ := h
      exact .member hdot hfirst
    | array items =>
      rw [step_array] at h
      split at h
      · rename_i hnumeric
        split at h
        · rename_i z hread
          obtain ⟨hshort, n, hn, rfl⟩ := (Integer.read_eq_ok_iff hnumeric).1 hread
          rw [Except.ok.injEq, Int.toNat_natCast, getElem?_eq_some_iff_append] at h
          obtain ⟨before, after, rfl, rfl⟩ := h
          exact .item hn hshort
        · cases h
      · cases h
    | _ => cases h
  · intro h
    cases h with
    | member hdot hfirst => rw [step_object, Keyed.get?_eq_some_iff.2 ⟨_, _, rfl, hfirst⟩]
    | item hdigits hshort =>
      rw [step_array, if_pos hdigits.looksNumeric,
        (Integer.read_eq_ok_iff hdigits.looksNumeric).2 ⟨hshort, _, hdigits, rfl⟩]
      simp

/-! ## Whole paths -/

/-- Segments lead from a value to another one, each naming a value in the one before. -/
inductive Leads : List Text → Value → Value → Prop
  | here {v : Value} : Leads [] v v
  | step {segment : Text} {rest : List Text} {u v w : Value} (hstep : Names segment u v) (hrest : Leads rest v w) :
      Leads (segment :: rest) u w

theorem Leads.dotless (h : Leads segments v w) : ∀ segment ∈ segments, '.' ∉ segment := by
  induction h with
  | here => exact List.forall_mem_nil _
  | step hstep hrest ih => exact List.forall_mem_cons.2 ⟨hstep.dotless, ih⟩

/-- A walk ends at the value that its segments lead to. -/
theorem walk_eq_some_iff (hdot : ∀ segment ∈ segments, '.' ∉ segment) :
    walk segments v = .ok (some w) ↔ Leads segments v w := by
  induction segments generalizing v with
  | nil =>
    rw [walk, Except.ok.injEq, Option.some.injEq]
    constructor
    · rintro rfl
      exact .here
    · rintro ⟨⟩
      rfl
  | cons segment rest ih =>
    obtain ⟨hsegment, hrest⟩ := List.forall_mem_cons.1 hdot
    rw [walk]
    constructor
    · intro h
      split at h
      · rename_i next hnext
        exact .step ((step_eq_some_iff hsegment).1 hnext) ((ih hrest).1 h)
      · cases h
      · cases h
    · rintro (_ | ⟨hstep, hleads⟩)
      rw [(step_eq_some_iff hsegment).2 hstep]
      exact (ih hrest).2 hleads

theorem lookup_eq_some_iff : lookup p tree = .ok (some v) ↔ Leads (Text.splitOn '.' p) (.object tree) v :=
  walk_eq_some_iff fun _ => Text.not_mem_of_mem_splitOn

/-- The segments between the dots of a path lead to the value that is found at it, and to no other: what is reached in
steps of one segment each is found at the path that they are joined to, and nothing else is found anywhere. A path of
two parts is followed from where its first part ends, and leads nowhere where that does. A path has at least one
segment, so none leads back to the root. -/
theorem lookup_addresses (tree : Variables) :
    (∀ first rest v, Leads (first :: rest) (.object tree) v →
      lookup (Text.join ['.'] (first :: rest)) tree = .ok (some v)) ∧
    (∀ path v, lookup path tree = .ok (some v) → Leads (Text.splitOn '.' path) (.object tree) v) ∧
    ∀ p q, lookup (p ++ '.' :: q) tree =
      match lookup p tree with
      | .ok (some v) => walk (Text.splitOn '.' q) v
      | .ok none => .ok none
      | .error e => .error e := by
  refine ⟨fun first rest v h => ?_, fun path v h => lookup_eq_some_iff.1 h, fun p q => ?_⟩
  · rw [lookup, Text.splitOn_join (List.cons_ne_nil _ _) h.dotless]
    exact (walk_eq_some_iff h.dotless).2 h
  · rw [lookup, Text.splitOn_append, walk_append]
    rfl

/-- A cell with a number for its name and an empty name below. -/
def cell : Value := .object [(['0'], .object [([], .string ['x'])])]

def rowsTree : Variables := [("rows".toList, .array [.array [cell]])]

/-- The index of the row in digits of another script, with a zero in front. -/
def rowsPath : List Text := ["rows".toList, ['\u0660', '\u0660'], ['0'], ['0'], []]

theorem lookup_addresses_rows :
    Leads rowsPath (.object rowsTree) (.string ['x']) ∧
    lookup (Text.join ['.'] rowsPath) rowsTree = .ok (some (.string ['x'])) ∧
    lookup ("rows.0".toList ++ '.' :: "0.0.".toList) rowsTree = .ok (some (.string ['x'])) := by
  have hzero : Integer.Denotes ['0'] 0 := .single (by decide)
  have hzeros : Integer.Denotes ['\u0660', '\u0660'] 0 :=
    @Integer.Denotes.snoc ['\u0660'] 0 '\u0660' 0 (.single (by decide)) (by decide)
  have hcell : Leads [['0'], []] cell (.string ['x']) :=
    .step (@Names.member ['0'] _ [] [] (by decide) List.not_mem_nil)
      (.step (@Names.member [] _ [] [] (by decide) List.not_mem_nil) .here)
  have hrow : Leads [['\u0660', '\u0660'], ['0'], ['0'], []] (.array [.array [cell]]) (.string ['x']) :=
    .step (@Names.item ['\u0660', '\u0660'] _ [] [] hzeros (by decide))
      (.step (@Names.item ['0'] _ [] [] hzero (by decide)) hcell)
  have hleads : Leads rowsPath (.object rowsTree) (.string ['x']) :=
    .step (@Names.member "rows".toList _ [] [] (by decide) List.not_mem_nil) hrow
  refine ⟨hleads, (lookup_addresses rowsTree).1 _ _ _ hleads, ?_⟩
  rw [(lookup_addresses rowsTree).2.2]
  cbv

end Variable
end Sitewright
