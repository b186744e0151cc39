import Mathlib
import Sitewright.Text.Blank
/-!
# Where a part stands in a text

A part stands behind a front of a text if the front and the part together are a front of the text. A text
holds a part if the part stands somewhere in it, and it is cut where the part stands first.

Main statements: `contains_iff`, `cutAt?_eq_some_iff`, and `stands_append`: where a part may stand in two
texts put together.
-/
set_option autoImplicit false

namespace Sitewright.Text

variable {part s x y pre before rest : Text}

theorem after?_eq_some_iff : after? part s = some rest ↔ s = part ++ rest := by
  constructor
  · exact eq_append_of_after?
  · rintro rfl
    exact after?_append part rest

/-- Whether a front without some character stands in front is settled before that character. -/
theorem after?_append_cons {c : Char} (h : c ∉ part) (x y : Text) :
    after? part (x ++ c :: y) = (after? part x).map (· ++ c :: y) := by
  induction part generalizing x with
  | nil => rfl
  | cons a part ih =>
    rw [List.mem_cons, not_or] at h
    obtain ⟨hac, hpart⟩ := h
    cases x with
    | nil => simp [after?, Ne.symm hac]
    | cons b x =>
      rw [List.cons_append, after?, after?]
      split
      · exact ih hpart x
      · rfl

theorem startsWith_iff : startsWith part s = true ↔ part <+: s := by
  rw [startsWith, Option.isSome_iff_exists]
  constructor
  · rintro ⟨rest, h⟩
    exact ⟨rest, (after?_eq_some_iff.1 h).symm⟩
  · rintro ⟨rest, h⟩
    exact ⟨rest, after?_eq_some_iff.2 h.symm⟩

theorem endsWith_iff : endsWith part s = true ↔ part <:+ s := by
  rw [endsWith, ← startsWith, startsWith_iff, List.reverse_prefix]

theorem endsWith_append (s tail : Text) : endsWith tail (s ++ tail) = true := by
  rw [endsWith, List.reverse_append, after?_append]
  rfl

theorem contains_iff : contains part s = true ↔ ∃ pre, pre ++ part <+: s := by
  induction s with
  | nil =>
    rw [contains, List.isEmpty_iff]
    constructor
    · rintro rfl
      exact ⟨[], List.prefix_refl _⟩
    · rintro ⟨pre, h⟩
      have hnil := List.prefix_nil.1 h
      exact (List.append_eq_nil_iff.1 hnil).2
  | cons c s ih =>
    rw [contains, Bool.or_eq_true, startsWith_iff, ih]
    constructor
    · rintro (h | ⟨pre, h⟩)
      · exact ⟨[], h⟩
      · exact ⟨c :: pre, List.cons_prefix_cons.2 ⟨rfl, h⟩⟩
    · rintro ⟨pre, h⟩
      cases pre with
      | nil => exact .inl h
      | cons c' pre =>
        rw [List.cons_append, List.cons_prefix_cons] at h
        exact .inr ⟨pre, h.2⟩

theorem contains_iff_infix : contains part s = true ↔ part <:+: s := by
  rw [contains_iff]
  constructor
  · rintro ⟨pre, rest, h⟩
    exact ⟨pre, rest, h⟩
  · rintro ⟨pre, rest, h⟩
    exact ⟨pre, rest, h⟩

theorem dropWhile_gap {gap : Text} {c : Char} (h : ∀ b ∈ gap, isBlank b = true) (hc : isBlank c = false) (s : Text) :
    (gap ++ c :: s).dropWhile isBlank = c :: s := by
  rw [List.dropWhile_append_of_pos h, List.dropWhile_cons_of_neg (by simp [hc])]

/-! ## The first place -/

theorem first_of_cutFrom {passed : Text} (h : cutFrom part passed s = some (before, rest)) :
    ∃ x, before = passed.reverse ++ x ∧ ∀ pre, pre ++ part <+: s → x.length ≤ pre.length := by
  induction s generalizing passed with
  | nil =>
    rw [cutFrom] at h
    split at h
    · cases h
      exact ⟨[], by simp, fun _ _ => Nat.zero_le _⟩
    · cases h
  | cons c s ih =>
    rw [cutFrom] at h
    cases hafter : after? part (c :: s) with
    | some r =>
      rw [hafter] at h
      cases h
      exact ⟨[], by simp, fun _ _ => Nat.zero_le _⟩
    | none =>
      rw [hafter] at h
      obtain ⟨x, hx, hfirst⟩ := ih h
      refine ⟨c :: x, by simp [hx], fun pre hpre => ?_⟩
      cases pre with
      | nil =>
        obtain ⟨r, hr⟩ := hpre
        have hsome : after? part (c :: s) = some r := after?_eq_some_iff.2 hr.symm
        rw [hafter] at hsome
        cases hsome
      | cons c' pre =>
        rw [List.cons_append, List.cons_prefix_cons] at hpre
        have hlen := hfirst pre hpre.2
        simp only [List.length_cons]
        omega

theorem cutFrom_of_first {passed : Text} (hfirst : ∀ pre, pre ++ part <+: x ++ part ++ y → x.length ≤ pre.length) :
    cutFrom part passed (x ++ part ++ y) = some (passed.reverse ++ x, y) := by
  induction x generalizing passed with
  | nil =>
    rw [List.nil_append, List.append_nil]
    cases hs : part ++ y with
    | nil =>
      obtain ⟨hpart, hy⟩ := List.append_eq_nil_iff.1 hs
      rw [cutFrom, hpart, hy]
      rfl
    | cons c s =>
      rw [cutFrom, ← hs, after?_append]
  | cons c x ih =>
    have hafter : after? part (c :: (x ++ part ++ y)) = none := by
      rw [Option.eq_none_iff_forall_not_mem]
      intro r hr
      have hpre : [] ++ part <+: c :: x ++ part ++ y := ⟨r, (after?_eq_some_iff.1 hr).symm⟩
      have hlen := hfirst [] hpre
      simp at hlen
    have hrest : cutFrom part (c :: passed) (x ++ part ++ y) = some ((c :: passed).reverse ++ x, y) := by
      refine ih fun pre hpre => ?_
      have hlen := hfirst (c :: pre) (List.cons_prefix_cons.2 ⟨rfl, hpre⟩)
      simp only [List.length_cons] at hlen
      omega
    have hcons : c :: x ++ part ++ y = c :: (x ++ part ++ y) := rfl
    rw [hcons, cutFrom, hafter]
    simp only
    rw [hrest]
    simp

/-- A text is cut where the part stands first. -/
theorem cutAt?_eq_some_iff : cutAt? part s = some (before, rest) ↔
    s = before ++ part ++ rest ∧ ∀ pre, pre ++ part <+: s → before.length ≤ pre.length := by
  constructor
  · intro h
    obtain ⟨x, hx, hfirst⟩ := first_of_cutFrom h
    rw [List.reverse_nil, List.nil_append] at hx
    subst hx
    exact ⟨eq_of_cutAt? h, hfirst⟩
  · rintro ⟨rfl, hfirst⟩
    exact cutFrom_of_first hfirst

theorem cutAt?_eq_none_iff : cutAt? part s = none ↔ contains part s = false := by
  have hcut : ∀ passed, cutFrom part passed s = none ↔ contains part s = false := by
    induction s with
    | nil =>
      intro passed
      rw [cutFrom, contains]
      cases part.isEmpty <;> simp
    | cons c s ih =>
      intro passed
      rw [cutFrom, contains, startsWith]
      cases after? part (c :: s) with
      | some r => simp
      | none => simpa using ih (c :: passed)
  exact hcut []

/-! ## Two texts put together -/

/-- A part stands behind the first of two texts, or it begins in the first one. -/
theorem stands_append (h : pre ++ part <+: x ++ y) :
    (∃ q, pre = x ++ q ∧ q ++ part <+: y) ∨ ∃ r, r ≠ [] ∧ x = pre ++ r ∧ part <+: r ++ y := by
  have hpre : pre <+: x ++ y := (List.prefix_append pre part).trans h
  rcases Nat.lt_or_ge pre.length x.length with hlt | hge
  · obtain ⟨r, rfl⟩ := List.prefix_of_prefix_length_le hpre (List.prefix_append x y) (by omega)
    refine .inr ⟨r, ?_, rfl, ?_⟩
    · rintro rfl
      simp at hlt
    · rw [List.append_assoc, List.prefix_append_right_inj] at h
      exact h
  · obtain ⟨q, rfl⟩ := List.prefix_of_prefix_length_le (List.prefix_append x y) hpre hge
    refine .inl ⟨q, rfl, ?_⟩
    rw [List.append_assoc, List.prefix_append_right_inj] at h
    exact h

theorem append_cons_unique {a b : Char} (hx : b ∉ x) (hy : a ∉ y) (h : x ++ a :: s = y ++ b :: rest) :
    x = y ∧ a = b ∧ s = rest := by
  rcases List.append_eq_append_iff.1 h with ⟨z, rfl, hz⟩ | ⟨z, rfl, hz⟩
  · cases z with
    | nil => exact ⟨(List.append_nil x).symm, List.cons.inj hz⟩
    | cons c z =>
      obtain ⟨rfl, -⟩ := List.cons.inj hz
      exact absurd hy (by simp)
  · cases z with
    | nil => exact ⟨List.append_nil y, (List.cons.inj hz).1.symm, (List.cons.inj hz).2.symm⟩
    | cons c z =>
      obtain ⟨rfl, -⟩ := List.cons.inj hz
      exact absurd hx (by simp)

theorem front_append (h : part <+: x ++ y) : part <+: x ∨ ∃ b, b ≠ [] ∧ part = x ++ b ∧ b <+: y := by
  rcases Nat.lt_or_ge x.length part.length with hlt | hge
  · obtain ⟨b, rfl⟩ := List.prefix_of_prefix_length_le (List.prefix_append x y) h (by omega)
    refine .inr ⟨b, ?_, rfl, (List.prefix_append_right_inj x).1 h⟩
    rintro rfl
    simp at hlt
  · exact .inl (List.prefix_of_prefix_length_le h (List.prefix_append x y) hge)

end Sitewright.Text
