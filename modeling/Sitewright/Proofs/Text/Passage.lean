import Sitewright.Proofs.Text.Scanning
/-!
# What passes through a scan

A scan takes marks out of a text. A part of the text that no mark meets passes through as it is, whatever is put in
the place of the marks.

* `Misses`: a part does not meet the source of a mark.

Main statement: `infix_fill`.
-/
set_option autoImplicit false

namespace Sitewright.Scan

variable {α : Type} {r : Recognizer α} {part s source : Text}

/-- A part begins neither in the source of a mark nor around the end of one. -/
def Misses (part source : Text) : Prop :=
  ∀ front tail, source = front ++ tail → tail ≠ [] → ¬ tail <+: part ∧ ¬ part <+: tail

theorem misses_of_not_mem {c : Char} (h : c ∉ source) : Misses (c :: part) source := by
  rintro front tail rfl hne
  refine ⟨fun hpre => ?_, fun hpre => ?_⟩
  · obtain ⟨c', tail, rfl⟩ := List.exists_cons_of_ne_nil hne
    rw [List.cons_prefix_cons] at hpre
    exact h (List.mem_append_right _ (hpre.1 ▸ List.mem_cons_self))
  · exact h (List.mem_append_right _ (hpre.subset List.mem_cons_self))

/-- What begins before a part and ends behind its beginning meets it. -/
theorem not_misses_take {c : Char} {before behind : Text} {n : Nat} (h : before.length < n - 1) :
    ¬ Misses part ((c :: (before ++ (part ++ behind))).take (max n 1)) := by
  obtain ⟨k, hk⟩ : ∃ k, max n 1 = (c :: before).length + (k + 1) := ⟨n - 2 - before.length, by simp; omega⟩
  have htake : (c :: (before ++ (part ++ behind))).take (max n 1) =
      (c :: before) ++ (part ++ behind).take (k + 1) := by
    rw [hk, ← List.cons_append, List.take_length_add_append]
  intro hmisses
  rw [htake] at hmisses
  cases part with
  | nil => exact (hmisses [] _ rfl (by simp)).2 (List.nil_prefix)
  | cons d part =>
    obtain ⟨htail, hpart⟩ := hmisses (c :: before) _ rfl (by simp)
    rcases Nat.le_total (k + 1) (d :: part).length with hle | hle
    · rw [List.take_append_of_le_length hle] at htail
      exact htail (List.take_prefix _ _)
    · rw [List.take_append, List.take_of_length_le hle] at hpart
      exact hpart (List.prefix_append _ _)

/-- A part that misses the marks of a text stands in the scan as it is. -/
theorem scan_split (hquiet : Quiet r part) {before behind : Text}
    (hmisses : ∀ a source, .mark a source ∈ scan r (before ++ (part ++ behind)) → Misses part source) :
    ∃ p q, scan r (before ++ (part ++ behind)) = p ++ (part.map .plain ++ q) := by
  induction hn : before.length using Nat.strongRecOn generalizing before with
  | _ n ih =>
    cases before with
    | nil => exact ⟨[], scan r behind, scan_append_of_quiet hquiet behind⟩
    | cons c before =>
      rw [List.cons_append] at hmisses ⊢
      cases hc : r (c :: (before ++ (part ++ behind))) with
      | none =>
        rw [scan_cons_of_none hc] at hmisses ⊢
        obtain ⟨p, q, hpq⟩ := ih before.length (by rw [← hn]; exact Nat.lt_succ_self _)
          (fun a source h => hmisses a source (List.mem_cons_of_mem _ h)) rfl
        exact ⟨.plain c :: p, q, by rw [hpq]; rfl⟩
      | some found =>
        rw [scan_cons_of_some hc] at hmisses ⊢
        -- the mark ends before the part begins
        have hend : found.2 - 1 ≤ before.length := by
          by_contra hlong
          exact not_misses_take (by omega) (hmisses found.1 _ List.mem_cons_self)
        have hdrop : (before ++ (part ++ behind)).drop (found.2 - 1) = before.drop (found.2 - 1) ++ (part ++ behind) :=
          List.drop_append_of_le_length hend
        rw [hdrop] at hmisses ⊢
        obtain ⟨p, q, hpq⟩ := ih (before.drop (found.2 - 1)).length
          (by rw [← hn, List.length_drop, List.length_cons]; omega)
          (fun a source h => hmisses a source (List.mem_cons_of_mem _ h)) rfl
        exact ⟨_ :: p, q, by rw [hpq]; rfl⟩

theorem fill_append_plain (p q : List (Piece α)) (texts : List Text) :
    ∃ x y, fill [] (p ++ (part.map .plain ++ q)) texts = x ++ (part ++ y) := by
  induction p generalizing texts with
  | nil => exact ⟨[], fill [] q texts, fill_map_plain part q texts⟩
  | cons piece p ih =>
    rw [List.cons_append]
    cases piece with
    | plain c =>
      obtain ⟨x, y, hxy⟩ := ih texts
      exact ⟨c :: x, y, by rw [fill_plain, hxy]; rfl⟩
    | mark a source =>
      cases texts with
      | nil =>
        obtain ⟨x, y, hxy⟩ := ih []
        exact ⟨x, y, by rw [fill, hxy]⟩
      | cons t texts =>
        obtain ⟨x, y, hxy⟩ := ih texts
        exact ⟨t ++ x, y, by rw [fill_mark, hxy, List.append_assoc]⟩

/-- A part of a text that misses its marks is a part of what the text is filled to. -/
theorem infix_fill (hquiet : Quiet r part) (h : part <:+: s)
    (hmisses : ∀ a source, .mark a source ∈ scan r s → Misses part source) (texts : List Text) :
    part <:+: fill [] (scan r s) texts := by
  obtain ⟨before, behind, rfl⟩ := h
  rw [List.append_assoc] at hmisses ⊢
  obtain ⟨p, q, hpq⟩ := scan_split hquiet hmisses
  obtain ⟨x, y, hxy⟩ := fill_append_plain p q texts
  exact ⟨x, y, by rw [hpq, hxy, List.append_assoc]⟩

end Sitewright.Scan
