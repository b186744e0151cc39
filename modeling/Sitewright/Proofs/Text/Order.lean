import Mathlib
import Sitewright.Text.Basic
/-!
# The order of texts

Texts are compared character by character. Different texts have an order, so some texts have one ascending
order, whatever order they are given in.

Main statement: `sorted_eq_of_perm`.
-/
set_option autoImplicit false

namespace Sitewright.Text

theorem before_irrefl (s : Text) : before s s = false := by
  induction s with
  | nil => rfl
  | cons c s ih => simp [before, ih]

theorem before_trans {s t u : Text} (hst : before s t = true) (htu : before t u = true) :
    before s u = true := by
  induction s generalizing t u with
  | nil =>
    cases u with
    | nil => cases t <;> simp [before] at htu
    | cons c u => rfl
  | cons a s ih =>
    cases t with
    | nil => simp [before] at hst
    | cons b t =>
      cases u with
      | nil => simp [before] at htu
      | cons c u =>
        rw [before] at hst htu ⊢
        by_cases hab : a = b
        · subst hab
          by_cases hac : a = c
          · subst hac
            simp only [if_true] at hst htu ⊢
            exact ih hst htu
          · rw [if_neg hac] at htu ⊢
            exact htu
        · by_cases hbc : b = c
          · subst hbc
            rw [if_neg hab] at hst ⊢
            exact hst
          · rw [if_neg hab] at hst
            rw [if_neg hbc] at htu
            have hac : a.val < c.val := UInt32.lt_trans (of_decide_eq_true hst) (of_decide_eq_true htu)
            have hne : a ≠ c := by
              rintro rfl
              exact UInt32.lt_irrefl _ hac
            rw [if_neg hne]
            exact decide_eq_true hac

/-- Of two texts that are not the same one comes first. -/
theorem before_total {s t : Text} (hst : before s t = false) (hts : before t s = false) : s = t := by
  induction s generalizing t with
  | nil =>
    cases t with
    | nil => rfl
    | cons b t => simp [before] at hst
  | cons a s ih =>
    cases t with
    | nil => simp [before] at hts
    | cons b t =>
      rw [before] at hst hts
      by_cases hab : a = b
      · subst hab
        simp only [if_true] at hst hts
        rw [ih hst hts]
      · rw [if_neg hab] at hst
        rw [if_neg (Ne.symm hab)] at hts
        have h1 := UInt32.not_lt.1 (of_decide_eq_false hst)
        have h2 := UInt32.not_lt.1 (of_decide_eq_false hts)
        exact absurd (Char.ext (UInt32.le_antisymm h2 h1)) hab

theorem pairwise_sorted (texts : List Text) :
    (sorted texts).Pairwise fun a b => (!before b a) = true := by
  refine List.pairwise_mergeSort (fun a b c hab hbc => ?_) (fun a b => ?_) texts
  · rw [Bool.not_eq_true'] at hab hbc ⊢
    by_contra hca
    rw [Bool.not_eq_false] at hca
    by_cases hba : before a b = true
    · have := before_trans hca hba
      simp [hbc] at this
    · rw [Bool.not_eq_true] at hba
      rw [before_total hba hab] at hca
      simp [hbc] at hca
  · by_cases hba : before b a = true
    · have hab : before a b = false := by
        by_contra hc
        have := before_trans hba (Bool.not_eq_false _ ▸ hc)
        rw [before_irrefl] at this
        cases this
      simp [hab]
    · simp [hba]

theorem eq_of_perm_of_pairwise {s t : List Text} (hperm : s.Perm t)
    (hs : s.Pairwise fun a b => (!before b a) = true) (ht : t.Pairwise fun a b => (!before b a) = true) :
    s = t := by
  refine hperm.eq_of_pairwise (fun a b _ _ hab hba => ?_) hs ht
  exact before_total (by simpa using hba) (by simpa using hab)

/-- The ascending order of some texts does not depend on the order in which they are given. -/
theorem sorted_eq_of_perm {s t : List Text} (h : s.Perm t) : sorted s = sorted t := by
  have hs : (sorted s).Perm s := List.mergeSort_perm s _
  have ht : (sorted t).Perm t := List.mergeSort_perm t _
  exact eq_of_perm_of_pairwise (hs.trans (h.trans ht.symm)) (pairwise_sorted s) (pairwise_sorted t)

end Sitewright.Text
