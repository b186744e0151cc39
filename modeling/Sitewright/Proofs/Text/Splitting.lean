import Mathlib
import Sitewright.Text.Basic
/-!
# Splitting and joining

Splitting a text at a character is the splitting of lists, taken up to the reversed pieces of the loop.

Main statements: parts without the character are what their join is split into (`splitOn_join`), no piece holds the
character (`not_mem_of_mem_splitOn`), and a text is split on both sides of the character apart (`splitOn_append`).
-/
set_option autoImplicit false

namespace Sitewright.Text

theorem splitFrom_eq (sep : Char) (done : List Text) (piece s : Text) :
    splitFrom sep done piece s = done.reverse ++ List.splitOnPPrepend (fun c => c == sep) s piece := by
  induction s generalizing done piece with
  | nil => simp [splitFrom, List.splitOnPPrepend]
  | cons c s ih =>
    by_cases hc : c = sep
    · simp [splitFrom, List.splitOnPPrepend, hc, ih]
    · simp [splitFrom, List.splitOnPPrepend, hc, ih]

theorem splitOn_eq (sep : Char) (s : Text) : splitOn sep s = List.splitOn sep s := by
  rw [splitOn, splitFrom_eq]
  rfl

theorem splitOn_join {sep : Char} {parts : List Text} (hne : parts ≠ []) (h : ∀ part ∈ parts, sep ∉ part) :
    splitOn sep (join [sep] parts) = parts := by
  rw [splitOn_eq]
  exact List.splitOn_intercalate sep h hne

theorem join_singleton (sep part : Text) : join sep [part] = part := List.intercalate_singleton

theorem splitOn_of_not_mem {sep : Char} {s : Text} (h : sep ∉ s) : splitOn sep s = [s] := by
  have hsplit := splitOn_join (List.cons_ne_nil s []) (List.forall_mem_singleton.2 h)
  rwa [join_singleton] at hsplit

theorem splitOn_append (sep : Char) (s t : Text) : splitOn sep (s ++ sep :: t) = splitOn sep s ++ splitOn sep t := by
  rw [splitOn_eq, splitOn_eq, splitOn_eq]
  exact List.splitOnP_append_cons s t (beq_self_eq_true sep)

/-- Every character of a piece of a split is one of the text, and not the one that it is split at. -/
theorem forall_mem_splitFrom {sep : Char} {P : Char → Prop} {done : List Text} {piece s : Text}
    (hdone : ∀ t ∈ done, ∀ c ∈ t, P c) (hpiece : ∀ c ∈ piece, P c) (hs : ∀ c ∈ s, c ≠ sep → P c) :
    ∀ t ∈ splitFrom sep done piece s, ∀ c ∈ t, P c := by
  induction s generalizing done piece with
  | nil =>
    intro t ht
    rcases List.mem_cons.1 (List.mem_reverse.1 ht) with rfl | ht
    · exact fun c hc => hpiece c (List.mem_reverse.1 hc)
    · exact hdone t ht
  | cons c s ih =>
    have hrest : ∀ b ∈ s, b ≠ sep → P b := fun b hb => hs b (List.mem_cons_of_mem c hb)
    rw [splitFrom]
    split
    · refine ih (fun t ht => ?_) (fun b hb => absurd hb List.not_mem_nil) hrest
      rcases List.mem_cons.1 ht with rfl | ht
      · exact fun b hb => hpiece b (List.mem_reverse.1 hb)
      · exact hdone t ht
    · rename_i hne
      refine ih hdone (fun b hb => ?_) hrest
      rcases List.mem_cons.1 hb with rfl | hb
      · exact hs b List.mem_cons_self hne
      · exact hpiece b hb

theorem not_mem_of_mem_splitOn {sep : Char} {s part : Text} (h : part ∈ splitOn sep s) : sep ∉ part := by
  intro hc
  have hall := forall_mem_splitFrom (P := fun c => c ≠ sep) (fun _ ht => absurd ht List.not_mem_nil)
    (fun _ hc => absurd hc List.not_mem_nil) (fun _ _ hne => hne) part h
  exact hall sep hc rfl

theorem join_cons (sep : Char) (first : Text) (rest : List Text) :
    join [sep] (first :: rest) = first ++ rest.flatMap (sep :: ·) := by
  induction rest generalizing first with
  | nil => simp [join]
  | cons second rest ih => rw [join_cons_cons, ih, List.flatMap_cons, List.append_assoc]; rfl

end Sitewright.Text
