import Sitewright.Proofs.Outcome
import Sitewright.Yaml.Document
/-!
# Values of settings documents

The keys of a mapping that is read are distinct, and scalars can be put in order if they are of one kind.

* `Yaml.Distinct`: no two members of a mapping have the same key.
-/
set_option autoImplicit false

namespace Sitewright

/-! ## Members of a mapping -/

namespace Yaml

/-- No two members of a mapping have the same key. -/
def Distinct (members : List (Scalar × Value)) : Prop := members.Pairwise fun a b => a.1.sameKey b.1 = false

theorem mem_putMember {members : List (Scalar × Value)} {key : Scalar} {value : Value} {m : Scalar × Value}
    (h : m ∈ putMember members key value) : (∃ m' ∈ members, m'.1 = m.1) ∨ m.1 = key := by
  induction members with
  | nil => exact .inr (List.mem_singleton.1 h ▸ rfl)
  | cons first rest ih =>
    unfold putMember at h
    split at h
    · rcases List.mem_cons.1 h with rfl | h
      · exact .inl ⟨first, List.mem_cons_self, rfl⟩
      · exact .inl ⟨m, List.mem_cons_of_mem _ h, rfl⟩
    · rcases List.mem_cons.1 h with rfl | h
      · exact .inl ⟨m, List.mem_cons_self, rfl⟩
      · exact (ih h).imp_left fun ⟨m', hm', he⟩ => ⟨m', List.mem_cons_of_mem _ hm', he⟩

theorem Distinct.putMember {members : List (Scalar × Value)} (h : Distinct members) (key : Scalar) (value : Value) :
    Distinct (putMember members key value) := by
  induction members with
  | nil => exact List.pairwise_singleton _ _
  | cons first rest ih =>
    obtain ⟨hfirst, hrest⟩ := List.pairwise_cons.1 h
    unfold Yaml.putMember
    split
    · exact List.pairwise_cons.2 ⟨hfirst, hrest⟩
    · rename_i hne
      refine List.pairwise_cons.2 ⟨fun m hm => ?_, ih hrest⟩
      rcases mem_putMember hm with ⟨m', hm', he⟩ | he
      · exact he ▸ hfirst m' hm'
      · exact he ▸ Bool.eq_false_iff.2 hne

theorem distinct_membersOf (entries : List (Scalar × Value)) : Distinct (membersOf entries) := by
  have hfold : ∀ members, Distinct members →
      Distinct (entries.foldl (fun members e => Yaml.putMember members e.1 e.2) members) := by
    induction entries with
    | nil => exact fun members h => h
    | cons e rest ih => exact fun members h => ih _ (h.putMember e.1 e.2)
  exact hfold [] List.Pairwise.nil

/-- A mapping is read with distinct keys. -/
theorem Node.distinct_of_valueOf {node : Node} {members : List (Scalar × Value)}
    (h : node.valueOf = .ok (.mapping members)) : Distinct members := by
  cases node with
  | scalar tag text =>
    unfold Node.valueOf at h
    split at h
    · cases h
    · obtain ⟨s, hs⟩ := ok_of_map h
      cases hs
  | sequence tag items =>
    unfold Node.valueOf at h
    split at h
    · obtain ⟨xs, hxs⟩ := ok_of_map (Reading.mapError_eq_ok h)
      cases hxs
    · obtain ⟨xs, hxs⟩ := ok_of_map (Reading.mapError_eq_ok h)
      cases hxs
    · cases h
  | mapping tag entries =>
    unfold Node.valueOf at h
    split at h
    · split at h
      · obtain ⟨read, hread⟩ := ok_of_map (Reading.mapError_eq_ok h)
        cases hread
        exact distinct_membersOf read
      · cases h
    · split at h
      · obtain ⟨read, hread⟩ := ok_of_map (Reading.mapError_eq_ok h)
        cases hread
      · cases h
    · split at h
      · cases h
      · cases htext : Node.textIn entries with
        | error e =>
          rw [htext] at h
          cases h
        | ok text =>
          rw [htext] at h
          obtain ⟨s, hs⟩ := ok_of_map h
          cases hs

theorem distinct_of_read {s : Text} {members : List (Scalar × Value)} (h : read s = .ok (.mapping members)) :
    Distinct members := by
  unfold read at h
  cases htokens : tokens s with
  | error e =>
    rw [htokens] at h
    cases h
  | ok ts =>
    rw [htokens] at h
    cases hnode : readDocument ts with
    | error e =>
      simp only [bind, Except.bind, hnode] at h
      cases h
    | ok node? =>
      simp only [bind, Except.bind, hnode] at h
      cases node? with
      | none => cases h
      | some node => exact Node.distinct_of_valueOf (Reading.mapError_eq_ok h)

/-! ## Order of keys -/

theorem sortedScalars?_perm {scalars sorted : List Scalar} (h : sortedScalars? scalars = some sorted) :
    sorted.Perm scalars := by
  unfold sortedScalars? at h
  split at h
  · cases h
    exact .refl _
  · split at h
    · cases h
      exact List.mergeSort_perm _ _
    · cases h

/-- Scalars cannot be put in order if two of them are of different kinds. -/
theorem sortedScalars?_eq_none_iff (scalars : List Scalar) :
    sortedScalars? scalars = none ↔ ∃ a ∈ scalars, ∃ b ∈ scalars, a.kind ≠ b.kind := by
  cases scalars with
  | nil => simp [sortedScalars?]
  | cons first rest =>
    rw [sortedScalars?]
    split
    · rename_i hall
      have hkind : ∀ s ∈ first :: rest, s.kind = first.kind := fun s hs =>
        (List.mem_cons.1 hs).elim (fun h => h ▸ rfl) fun hs => of_decide_eq_true (List.all_eq_true.1 hall s hs)
      refine iff_of_false (Option.some_ne_none _) ?_
      rintro ⟨a, ha, b, hb, hne⟩
      exact hne ((hkind a ha).trans (hkind b hb).symm)
    · rename_i hall
      refine iff_of_true rfl ?_
      rw [List.all_eq_true] at hall
      push Not at hall
      obtain ⟨s, hs, hne⟩ := hall
      exact ⟨s, List.mem_cons_of_mem _ hs, first, List.mem_cons_self, of_decide_eq_false (Bool.eq_false_iff.2 hne)⟩

end Yaml
end Sitewright
