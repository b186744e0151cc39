import Mathlib
import Sitewright.Text.Scan
/-!
# Scans by equations

A scan is a loop with a skip counter and a reversed list of pieces. Here it is described from the
front of the text: what it does at one character, on a stretch in which no mark begins, and at a mark
whose length is known. The texts put in the place of marks are described in the same way.

* `Still`: a stretch in which no mark begins, given what stands behind it.
* `Quiet`: a stretch in which none begins, whatever stands behind it.

Main statements: a stretch in which no mark begins passes through (`scan_append_of_still`), a mark is
taken as a whole (`scan_append_of_mark`), a text holds at most as many marks as characters
(`length_marks_le`), filling in what marks are replaced by is a substitution (`fill_map_marks`), and the
first mark has a still stretch in front of it (`first?_eq_some_iff`).
-/
set_option autoImplicit false

namespace Sitewright.Scan

variable {α : Type}

/-! ## One step -/

theorem scanFrom_eq (r : Recognizer α) (skip : Nat) (found : List (Piece α)) (s : Text) :
    scanFrom r skip found s = found.reverse ++ scan r (s.drop skip) := by
  induction s generalizing skip found with
  | nil => simp [scan, scanFrom]
  | cons c s ih =>
    cases skip with
    | succ k => rw [scanFrom, ih, List.drop_succ_cons]
    | zero =>
      rw [List.drop_zero, scan, scanFrom, scanFrom]
      cases h : r (c :: s) with
      | none =>
        simp only
        rw [ih 0 (.plain c :: found), ih 0 [.plain c]]
        simp
      | some a =>
        simp only
        rw [ih, ih (a.2 - 1) [_]]
        simp

theorem scan_nil (r : Recognizer α) : scan r [] = [] := rfl

theorem scan_cons_of_none {r : Recognizer α} {c : Char} {s : Text} (h : r (c :: s) = none) :
    scan r (c :: s) = .plain c :: scan r s := by
  rw [scan, scanFrom]
  simp only [h]
  rw [scanFrom_eq]
  simp

theorem scan_cons_of_some {r : Recognizer α} {c : Char} {s : Text} {a : α} {n : Nat}
    (h : r (c :: s) = some (a, n)) :
    scan r (c :: s) = .mark a ((c :: s).take (max n 1)) :: scan r (s.drop (n - 1)) := by
  rw [scan, scanFrom]
  simp only [h]
  rw [scanFrom_eq]
  simp

/-! ## Stretches and marks -/

/-- Nothing is recognised within a stretch that stands in front of a text. -/
def Still {β : Type} (f : Text → Option β) (u v : Text) : Prop :=
  ∀ before c behind, u = before ++ c :: behind → f (c :: (behind ++ v)) = none

section

variable {β : Type} {f : Text → Option β} {u v w : Text}

theorem still_nil (f : Text → Option β) (v : Text) : Still f [] v := by
  intro before c behind h
  simp at h

theorem still_cons {c : Char} : Still f (c :: u) v ↔ f (c :: (u ++ v)) = none ∧ Still f u v := by
  constructor
  · intro h
    exact ⟨h [] c u rfl, fun before d behind hu => h (c :: before) d behind (by rw [hu]; rfl)⟩
  · rintro ⟨hc, h⟩ before d behind hu
    cases before with
    | nil =>
      cases hu
      exact hc
    | cons e before =>
      cases hu
      exact h before d behind rfl

theorem still_append : Still f (u ++ w) v ↔ Still f u (w ++ v) ∧ Still f w v := by
  induction u with
  | nil => simp [still_nil]
  | cons c u ih => simp [still_cons, ih, and_assoc]

theorem Still.mono {γ : Type} {g : Text → Option γ} (h : Still f u v) (hfg : ∀ s, f s = none → g s = none) :
    Still g u v := fun before c behind hu => hfg _ (h before c behind hu)

theorem Still.drop {i : Nat} (h : Still f u v) (hi : i < u.length) : f (u.drop i ++ v) = none := by
  have hsplit : u = u.take i ++ u[i] :: u.drop (i + 1) := by
    rw [← List.drop_eq_getElem_cons hi, List.take_append_drop]
  rw [List.drop_eq_getElem_cons hi]
  exact h _ _ _ hsplit

theorem still_of_forall (h : ∀ c ∈ u, ∀ s, f (c :: s) = none) (v : Text) : Still f u v := by
  rintro before c behind rfl
  exact h c (by simp) _

theorem still_or_first (f : Text → Option β) (s : Text) :
    Still f s [] ∨ ∃ x c t b, s = x ++ c :: t ∧ f (c :: t) = some b ∧ Still f x (c :: t) := by
  induction s with
  | nil => exact .inl (still_nil f [])
  | cons d s ih =>
    cases hd : f (d :: s) with
    | some b => exact .inr ⟨[], d, s, b, rfl, hd, still_nil f _⟩
    | none =>
      rcases ih with h | ⟨x, c, t, b, rfl, hb, hx⟩
      · exact .inl (still_cons.2 ⟨by rwa [List.append_nil], h⟩)
      · exact .inr ⟨d :: x, c, t, b, rfl, hb, still_cons.2 ⟨hd, hx⟩⟩

end

theorem scan_append_of_still {r : Recognizer α} {u v : Text} (h : Still r u v) :
    scan r (u ++ v) = u.map .plain ++ scan r v := by
  induction u with
  | nil => rfl
  | cons c u ih =>
    obtain ⟨hc, hu⟩ := still_cons.1 h
    rw [List.cons_append, scan_cons_of_none hc, ih hu]
    rfl

theorem scan_of_still {r : Recognizer α} {s : Text} (h : Still r s []) : scan r s = s.map .plain := by
  have hscan := scan_append_of_still h
  rwa [List.append_nil, scan_nil, List.append_nil] at hscan

/-- No mark begins within the stretch `u`, whatever stands behind it. -/
def Quiet (r : Recognizer α) (u : Text) : Prop :=
  ∀ before c behind rest, u = before ++ c :: behind → r (c :: (behind ++ rest)) = none

theorem Quiet.still {r : Recognizer α} {u : Text} (h : Quiet r u) (v : Text) : Still r u v :=
  fun before c behind hu => h before c behind v hu

theorem scan_append_of_quiet {r : Recognizer α} {u : Text} (h : Quiet r u) (v : Text) :
    scan r (u ++ v) = u.map .plain ++ scan r v := scan_append_of_still (h.still v)

theorem scan_append_of_mark {r : Recognizer α} {u v : Text} {a : α} (hu : u ≠ [])
    (h : r (u ++ v) = some (a, u.length)) : scan r (u ++ v) = .mark a u :: scan r v := by
  cases u with
  | nil => exact absurd rfl hu
  | cons c u =>
    rw [List.cons_append] at h ⊢
    rw [scan_cons_of_some h]
    have hlen : max (c :: u).length 1 = u.length + 1 := by simp
    rw [hlen, List.take_succ_cons, List.length_cons, Nat.add_sub_cancel, List.take_left,
      List.drop_left]

theorem scan_of_forall_none {r : Recognizer α} {s : Text}
    (h : ∀ before c rest, s = before ++ c :: rest → r (c :: rest) = none) :
    scan r s = s.map .plain := by
  refine scan_of_still fun before c rest hs => ?_
  rw [List.append_nil]
  exact h before c rest hs

/-! ## Marks -/

theorem marks_eq (r : Recognizer α) (s : Text) :
    marks r s = (markPieces (scan r s)).map Prod.fst := by
  rw [marks, markPieces]
  generalize scan r s = pieces
  induction pieces with
  | nil => rfl
  | cons piece rest ih => cases piece <;> simp [ih]

theorem markPieces_map_plain (u : Text) (pieces : List (Piece α)) :
    markPieces (u.map .plain ++ pieces) = markPieces pieces := by
  simp [markPieces]

theorem markPieces_mark (a : α) (source : Text) (pieces : List (Piece α)) :
    markPieces (.mark a source :: pieces) = (a, source) :: markPieces pieces := rfl

theorem marks_eq_nil_iff {r : Recognizer α} {s : Text} : marks r s = [] ↔ Still r s [] := by
  rcases still_or_first r s with h | ⟨x, c, t, b, rfl, hb, hx⟩
  · simp [marks, scan_of_still h, h]
  · have hmarks : marks r (x ++ c :: t) ≠ [] := by
      simp [marks, scan_append_of_still hx, scan_cons_of_some hb]
    simp only [hmarks, false_iff]
    intro h
    have hnone := (still_append.1 h).2 [] c t rfl
    rw [List.append_nil, hb] at hnone
    cases hnone

theorem length_scan_le (r : Recognizer α) (s : Text) : (scan r s).length ≤ s.length := by
  induction hn : s.length using Nat.strongRecOn generalizing s with
  | _ n ih =>
    cases s with
    | nil => simp [scan_nil]
    | cons c s =>
      cases h : r (c :: s) with
      | none =>
        have := ih s.length (by rw [← hn]; simp) s rfl
        rw [scan_cons_of_none h, List.length_cons, ← hn, List.length_cons]
        omega
      | some a =>
        have hlt : (s.drop (a.2 - 1)).length < n := by
          rw [List.length_drop, ← hn, List.length_cons]
          omega
        have := ih _ hlt (s.drop (a.2 - 1)) rfl
        rw [scan_cons_of_some h, List.length_cons]
        omega

theorem length_marks_le (r : Recognizer α) (s : Text) : (marks r s).length ≤ s.length := by
  rw [marks]
  exact Nat.le_trans (List.length_filterMap_le _ _) (length_scan_le r s)

/-! ## Filling in -/

theorem fill_eq (out : Text) (pieces : List (Piece α)) (texts : List Text) :
    fill out pieces texts = out.reverse ++ fill [] pieces texts := by
  induction pieces generalizing out texts with
  | nil => simp [fill]
  | cons piece rest ih =>
    cases piece with
    | plain c =>
      rw [fill, fill, ih (c :: out), ih [c]]
      simp
    | mark a source =>
      cases texts with
      | nil => rw [fill, fill, ih]
      | cons t texts =>
        rw [fill, fill, ih (t.reverseAux out), ih (t.reverseAux [])]
        simp [List.reverseAux_eq]

theorem fill_plain (c : Char) (pieces : List (Piece α)) (texts : List Text) :
    fill [] (.plain c :: pieces) texts = c :: fill [] pieces texts := by
  rw [fill, fill_eq]
  rfl

theorem fill_mark (a : α) (source t : Text) (pieces : List (Piece α)) (texts : List Text) :
    fill [] (.mark a source :: pieces) (t :: texts) = t ++ fill [] pieces texts := by
  rw [fill, fill_eq]
  simp [List.reverseAux_eq]

theorem fill_map_plain (u : Text) (pieces : List (Piece α)) (texts : List Text) :
    fill [] (u.map .plain ++ pieces) texts = u ++ fill [] pieces texts := by
  induction u with
  | nil => rfl
  | cons c u ih => rw [List.map_cons, List.cons_append, fill_plain, ih, List.cons_append]

/-! ## Replacing -/

/-- A mark of a scan is what the recogniser finds, and takes, at the front of some rest of the text. -/
theorem exists_of_mark_mem_scan {r : Recognizer α} {a : α} {s source : Text} (h : .mark a source ∈ scan r s) :
    ∃ before rest n, s = before ++ rest ∧ r rest = some (a, n) ∧ source = rest.take (max n 1) := by
  induction hn : s.length using Nat.strongRecOn generalizing s with
  | _ n ih =>
    cases s with
    | nil => cases h
    | cons c s =>
      cases hc : r (c :: s) with
      | none =>
        rw [scan_cons_of_none hc] at h
        have hmem : .mark a source ∈ scan r s := (List.mem_cons.1 h).resolve_left (by simp)
        obtain ⟨before, rest, k, rfl, hrest⟩ := ih s.length (by rw [← hn]; simp) hmem rfl
        exact ⟨c :: before, rest, k, rfl, hrest⟩
      | some found =>
        rw [scan_cons_of_some hc] at h
        rcases List.mem_cons.1 h with h | h
        · cases h
          exact ⟨[], c :: s, found.2, rfl, hc, rfl⟩
        · have hlt : (s.drop (found.2 - 1)).length < n := by
            rw [List.length_drop, ← hn, List.length_cons]
            omega
          obtain ⟨before, rest, k, hs, hrest⟩ := ih _ hlt h rfl
          refine ⟨c :: (s.take (found.2 - 1) ++ before), rest, k, ?_, hrest⟩
          rw [List.cons_append, List.append_assoc, ← hs, List.take_append_drop]

/-- Filling in what each mark is replaced by is a substitution. -/
theorem fill_map_marks (f : α → Text → Text) (r : Recognizer α) (s : Text) :
    fill [] (scan r s) ((markPieces (scan r s)).map fun mark => f mark.1 mark.2) = substitute r f s := by
  unfold substitute
  generalize scan r s = pieces
  induction pieces with
  | nil => rfl
  | cons piece rest ih =>
    cases piece with
    | plain c =>
      rw [fill_plain, List.flatMap_cons, ← ih]
      rfl
    | mark a source =>
      rw [List.flatMap_cons, ← ih]
      exact fill_mark a source _ rest _

section

variable {r : Recognizer α} {f : α → Text → Text} {u v s : Text}

theorem substitute_append_of_still (h : Still r u v) : substitute r f (u ++ v) = u ++ substitute r f v := by
  simp only [substitute, scan_append_of_still h, List.flatMap_append, List.flatMap_map]
  simp

theorem substitute_cons_of_none {c : Char} (h : r (c :: s) = none) :
    substitute r f (c :: s) = c :: substitute r f s := by
  simp [substitute, scan_cons_of_none h]

theorem substitute_append_of_mark {a : α} (hu : u ≠ []) (h : r (u ++ v) = some (a, u.length)) :
    substitute r f (u ++ v) = f a u ++ substitute r f v := by
  simp [substitute, scan_append_of_mark hu h]

theorem substitute_of_still (h : Still r s []) : substitute r f s = s := by
  simp [substitute, scan_of_still h, List.flatMap_map]

end

theorem substitute_congr {f g : α → Text → Text} {r : Recognizer α} {s : Text}
    (h : ∀ a source, .mark a source ∈ scan r s → f a source = g a source) :
    substitute r f s = substitute r g s := by
  unfold substitute
  rw [List.flatMap_def, List.flatMap_def]
  refine congrArg List.flatten (List.map_congr_left fun piece hpiece => ?_)
  cases piece with
  | plain c => rfl
  | mark a source => exact h a source hpiece

theorem not_mem_substitute {c : Char} {f : α → Text → Text} {r : Recognizer α} {s : Text} (hs : c ∉ s)
    (h : ∀ a source, .mark a source ∈ scan r s → c ∉ f a source) : c ∉ substitute r f s := by
  intro hc
  obtain ⟨piece, hpiece, hmem⟩ := List.mem_flatMap.1 hc
  cases piece with
  | plain b =>
    refine hs ?_
    rw [← source_scan r s]
    exact List.mem_flatMap.2 ⟨_, hpiece, hmem⟩
  | mark a source => exact h a source hpiece hmem

theorem mem_markPieces {pieces : List (Piece α)} {a : α} {source : Text} :
    (a, source) ∈ markPieces pieces ↔ .mark a source ∈ pieces := by
  rw [markPieces, List.mem_filterMap]
  constructor
  · rintro ⟨piece, hpiece, hmark⟩
    cases piece with
    | plain c => cases hmark
    | mark b t =>
      cases hmark
      exact hpiece
  · exact fun h => ⟨_, h, rfl⟩

/-! ## The first mark -/

variable {r : Recognizer α} {s : Text}

theorem firstFrom_eq_some_iff {passed before rest : Text} {a : α} :
    firstFrom r passed s = some (before, a, rest) ↔ ∃ x c t n, before = passed.reverse ++ x ∧ s = x ++ c :: t ∧
      r (c :: t) = some (a, n) ∧ rest = (c :: t).drop n ∧ Still r x (c :: t) := by
  induction s generalizing passed with
  | nil => simp [firstFrom]
  | cons d s ih =>
    rw [firstFrom]
    cases hd : r (d :: s) with
    -- a mark begins here, so the first mark has nothing passed before it
    | some found =>
      obtain ⟨b, n⟩ := found
      simp only
      constructor
      · intro h
        cases h
        exact ⟨[], d, s, n, by simp, rfl, hd, rfl, still_nil _ _⟩
      · rintro ⟨x, c, t, m, rfl, hs, hc, rfl, hx⟩
        cases x with
        | nil =>
          cases hs
          rw [hd] at hc
          cases hc
          simp
        | cons e x =>
          rw [List.cons_append, List.cons.injEq] at hs
          obtain ⟨rfl, rfl⟩ := hs
          rw [(still_cons.1 hx).1] at hd
          cases hd
    | none =>
      simp only [ih]
      constructor
      · rintro ⟨x, c, t, n, rfl, rfl, hc, rfl, hx⟩
        exact ⟨d :: x, c, t, n, by simp, rfl, hc, rfl, still_cons.2 ⟨hd, hx⟩⟩
      · rintro ⟨x, c, t, n, rfl, hs, hc, rfl, hx⟩
        cases x with
        | nil =>
          cases hs
          rw [hd] at hc
          cases hc
        | cons e x =>
          rw [List.cons_append, List.cons.injEq] at hs
          obtain ⟨rfl, rfl⟩ := hs
          exact ⟨x, c, t, n, by simp, rfl, hc, rfl, (still_cons.1 hx).2⟩

/-- The first mark of a text is one with nothing recognised in front of it. -/
theorem first?_eq_some_iff {before rest : Text} {a : α} : first? r s = some (before, a, rest) ↔
    ∃ c t n, s = before ++ c :: t ∧ r (c :: t) = some (a, n) ∧ rest = (c :: t).drop n ∧ Still r before (c :: t) := by
  rw [first?, firstFrom_eq_some_iff]
  simp

theorem exists_firstFrom {x t : Text} {c : Char} {found : α × Nat} (h : r (c :: t) = some found) (passed : Text) :
    ∃ before a rest, firstFrom r passed (x ++ c :: t) = some (before, a, rest) ∧
      before.length ≤ passed.length + x.length := by
  induction x generalizing passed with
  | nil => exact ⟨passed.reverse, found.1, (c :: t).drop found.2, by simp [firstFrom, h], by simp⟩
  | cons d x ih =>
    rw [List.cons_append, firstFrom]
    cases hd : r (d :: (x ++ c :: t)) with
    | some other => exact ⟨passed.reverse, other.1, _, rfl, by simp⟩
    | none =>
      obtain ⟨before, a, rest, hfirst, hle⟩ := ih (d :: passed)
      refine ⟨before, a, rest, hfirst, ?_⟩
      simp only [List.length_cons] at hle ⊢
      omega

theorem exists_first {x t : Text} {c : Char} {found : α × Nat} (h : r (c :: t) = some found) :
    ∃ before a rest, first? r (x ++ c :: t) = some (before, a, rest) ∧ before.length ≤ x.length := by
  simpa [first?] using exists_firstFrom h []

end Sitewright.Scan
