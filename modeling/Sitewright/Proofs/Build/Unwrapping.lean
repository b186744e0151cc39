import Mathlib
import Sitewright.Build.Script
import Sitewright.Proofs.Text.Occurrence
import Sitewright.Proofs.Text.Scanning
/-!
# Ready wrappers

A wrapper is taken off without counting brackets: its body ends at the first closing brace that a closing parenthesis
follows, but for blanks. If the body of a wrapper has such a brace itself, say at the end of a callback, it is cut
there: that brace goes instead of the wrapper's own, and what stands behind it moves into the callback.

* `Wrapper`: a wrapper as it is written; `Wrapper.around` puts it around a body.
* `Unended`: a body in which no wrapper may end.

Main statement: `unwrapReady_around_iff`, the bodies that come out as they were.
-/
set_option autoImplicit false

namespace Sitewright.Build

open Text (isBlank)
open Scan (Still still_append still_of_forall still_or_first)

variable {a b c e inside rest s x : Text}

/-! ## Wrappers -/

/-- A wrapper around the statements of a script, with the blanks that may stand in it. -/
structure Wrapper where
  openQuote : Char
  closeQuote : Char
  beforeArguments : Text
  beforeArrow : Text
  beforeBrace : Text
  beforeEnd : Text
  quotes : ∀ q ∈ [openQuote, closeQuote], q = '"' ∨ q = '\''
  blanks : ∀ d ∈ beforeArguments ++ beforeArrow ++ beforeBrace ++ beforeEnd, isBlank d = true

namespace Wrapper

def opened (w : Wrapper) (s : Text) : Text :=
  "document.addEventListener(".toList ++ w.openQuote :: ("DOMContentLoaded".toList ++ w.closeQuote :: ',' ::
    (w.beforeArguments ++ ("()".toList ++ (w.beforeArrow ++ ("=>".toList ++ (w.beforeBrace ++ (['\x7b'] ++ s)))))))

def closing (w : Wrapper) : Text := '\x7d' :: (w.beforeEnd ++ ");".toList)

def around (w : Wrapper) (body : Text) : Text := w.opened (body ++ w.closing)

end Wrapper

/-! ## Openings -/

theorem after?_gap {gap front : Text} (h : ∀ d ∈ gap, isBlank d = true)
    (hfront : ∃ d t, front = d :: t ∧ isBlank d = false) (s : Text) :
    Text.after? front ((gap ++ (front ++ s)).dropWhile isBlank) = some s := by
  obtain ⟨d, t, rfl, hd⟩ := hfront
  rw [List.cons_append, Text.dropWhile_gap h hd, ← List.cons_append]
  exact Text.after?_append (d :: t) s

theorem afterOpening?_opened (w : Wrapper) (s : Text) : afterOpening? (w.opened s) = some s := by
  have hopen := w.quotes w.openQuote (by simp)
  have hclose := w.quotes w.closeQuote (by simp)
  have hblank : ∀ gap ∈ [w.beforeArguments, w.beforeArrow, w.beforeBrace], ∀ d ∈ gap, isBlank d = true := by
    intro gap hgap d hd
    simp only [List.mem_cons, List.not_mem_nil, or_false] at hgap
    refine w.blanks d ?_
    rcases hgap with rfl | rfl | rfl <;> simp [hd]
  have hparens := @after?_gap _ "()".toList (hblank w.beforeArguments (by simp)) ⟨'(', [')'], rfl, by decide⟩
  have hsign := @after?_gap _ "=>".toList (hblank w.beforeArrow (by simp)) ⟨'=', ['>'], rfl, by decide⟩
  have hbrace := @after?_gap _ ['\x7b'] (hblank w.beforeBrace (by simp)) ⟨'\x7b', [], rfl, by decide⟩ s
  unfold afterOpening? afterArrow? Wrapper.opened
  simp only [Text.after?_append, Option.bind_eq_bind, Option.bind_some, Bool.or_eq_true, decide_eq_true_eq, hopen,
    hclose, if_true, hparens, hsign, hbrace]

theorem dropWhile_append_brace (x s : Text) :
    (x ++ '\x7d' :: s).dropWhile isBlank = x.dropWhile isBlank ++ '\x7d' :: s := by
  rw [List.dropWhile_append, List.dropWhile_cons_of_neg (by decide)]
  cases x.dropWhile isBlank <;> rfl

theorem afterArrow?_append_brace (x s : Text) :
    afterArrow? (x ++ '\x7d' :: s) = (afterArrow? x).map (· ++ '\x7d' :: s) := by
  have hparens : '\x7d' ∉ "()".toList := by decide
  have hsign : '\x7d' ∉ "=>".toList := by decide
  have hbrace : '\x7d' ∉ ['\x7b'] := by decide
  simp only [afterArrow?, dropWhile_append_brace, Text.after?_append_cons hparens, Text.after?_append_cons hsign,
    Text.after?_append_cons hbrace, Option.bind_eq_bind, Option.bind_map, Option.map_bind, Function.comp_def]

/-- Whether a wrapper is opened in front is settled before a closing brace. -/
theorem afterOpening?_append_brace (x s : Text) :
    afterOpening? (x ++ '\x7d' :: s) = (afterOpening? x).map (· ++ '\x7d' :: s) := by
  have hlisten : '\x7d' ∉ "document.addEventListener(".toList := by decide
  have hevent : '\x7d' ∉ "DOMContentLoaded".toList := by decide
  unfold afterOpening?
  simp only [Text.after?_append_cons hlisten, Option.bind_eq_bind]
  rcases Text.after? "document.addEventListener(".toList x with _ | _ | ⟨q, y⟩
  · rfl
  · rfl
  simp only [Option.map_some, Option.bind_some, List.cons_append, Text.after?_append_cons hevent]
  split
  · rcases Text.after? "DOMContentLoaded".toList y with _ | _ | ⟨q, _ | ⟨d, z⟩⟩
    · rfl
    · -- the brace itself is no quote
      simp only [Option.map_some, Option.bind_some, List.nil_append]
      split
      · rename_i heq
        cases heq
        rfl
      · rfl
    · simp
    by_cases hd : d = ','
    · subst hd
      simp only [Option.map_some, Option.bind_some, List.cons_append, afterArrow?_append_brace]
      split <;> rfl
    · simp [hd]
  · rfl

theorem exists_of_afterArrow? (h : afterArrow? s = some inside) : ∃ o, s = o ++ inside := by
  simp only [afterArrow?, Option.bind_eq_bind, Option.bind_eq_some_iff, Text.after?_eq_some_iff] at h
  obtain ⟨t, ht, y, hy, hinside⟩ := h
  rw [← List.takeWhile_append_dropWhile (p := isBlank) (l := s), ht,
    ← List.takeWhile_append_dropWhile (p := isBlank) (l := t), hy,
    ← List.takeWhile_append_dropWhile (p := isBlank) (l := y), hinside]
  simp only [← List.append_assoc]
  exact ⟨_, rfl⟩

theorem exists_of_afterOpening? (h : afterOpening? s = some inside) : ∃ o, s = 'd' :: (o ++ inside) := by
  have hlisten : "document.addEventListener(".toList = 'd' :: "ocument.addEventListener(".toList := by decide
  unfold afterOpening? at h
  simp only [Option.bind_eq_bind, Option.bind_eq_some_iff, Text.after?_eq_some_iff] at h
  obtain ⟨t, rfl, ht⟩ := h
  split at ht
  · rename_i q t
    split at ht
    · simp only [Option.bind_eq_some_iff, Text.after?_eq_some_iff] at ht
      obtain ⟨y, rfl, hy⟩ := ht
      split at hy
      · rename_i q' y
        split at hy
        · obtain ⟨o, rfl⟩ := exists_of_afterArrow? hy
          refine ⟨"ocument.addEventListener(".toList ++ (q :: ("DOMContentLoaded".toList ++ (q' :: ',' :: o))), ?_⟩
          rw [hlisten]
          generalize "ocument.addEventListener(".toList = listen
          generalize "DOMContentLoaded".toList = event
          simp
        · cases hy
      · cases hy
    · cases ht
  · cases ht

/-! ## The end of a wrapper -/

theorem afterEnd?_closing (w : Wrapper) (s : Text) : afterEnd? (w.closing ++ s) = some s := by
  have hblank : ∀ d ∈ w.beforeEnd, isBlank d = true := fun d hd => w.blanks d (by simp [hd])
  have hgap := @after?_gap _ [')'] hblank ⟨')', [], rfl, by decide⟩ (';' :: s)
  simp only [List.cons_append, List.nil_append] at hgap
  simp [afterEnd?, Wrapper.closing, Text.after?, hgap]

theorem Wrapper.exists_closing (w : Wrapper) : ∃ c, w.closing = '\x7d' :: c ∧ '\x7d' ∉ c ∧ 'd' ∉ c := by
  have hblank : ∀ d ∈ w.beforeEnd, isBlank d = true := fun d hd => w.blanks d (by simp [hd])
  refine ⟨_, rfl, fun hmem => ?_, fun hmem => ?_⟩
  · exact absurd (hblank _ (by simpa using hmem)) (by decide)
  · exact absurd (hblank _ (by simpa using hmem)) (by decide)

theorem exists_of_afterEnd? (h : afterEnd? s = some rest) : ∃ e, s = '\x7d' :: (e ++ rest) ∧ '\x7d' ∉ e := by
  simp only [afterEnd?, Option.bind_eq_bind, Option.bind_eq_some_iff, Text.after?_eq_some_iff] at h
  obtain ⟨t, rfl, y, hy, hrest⟩ := h
  have hblank : '\x7d' ∉ t.takeWhile isBlank := fun hd => absurd (List.mem_takeWhile_imp hd) (by decide)
  have hsplit := List.takeWhile_append_dropWhile (p := isBlank) (l := t)
  rw [hy] at hsplit
  split at hrest
  · cases hrest
    exact ⟨t.takeWhile isBlank ++ [')', ';'], by simpa using hsplit.symm, by simpa using hblank⟩
  · cases hrest
    exact ⟨t.takeWhile isBlank ++ [')'], by simpa using hsplit.symm, by simpa using hblank⟩

/-- Whether an end stands in front of a text is settled before the next closing brace. -/
theorem afterEnd?_append_brace (d : Char) (x s : Text) :
    afterEnd? (d :: x ++ '\x7d' :: s) = (afterEnd? (d :: x)).map (· ++ '\x7d' :: s) := by
  by_cases hd : '\x7d' = d
  · subst hd
    have hparen : '\x7d' ∉ [')'] := by decide
    simp only [afterEnd?, List.cons_append, Text.after?, if_true, Option.bind_eq_bind, Option.bind_some,
      dropWhile_append_brace, Text.after?_append_cons hparen]
    rcases Text.after? [')'] (x.dropWhile isBlank) with _ | _ | ⟨c, y⟩
    · rfl
    · rfl
    · by_cases hc : c = ';'
      · subst hc
        rfl
      · simp [hc]
  · simp [afterEnd?, Text.after?, hd]

theorem still_append_brace : Still afterEnd? x ('\x7d' :: s) ↔ Still afterEnd? x [] := by
  have hlocal : ∀ d y, afterEnd? (d :: (y ++ '\x7d' :: s)) = none ↔ afterEnd? (d :: (y ++ [])) = none := by
    intro d y
    rw [← List.cons_append, afterEnd?_append_brace, List.append_nil, Option.map_eq_none_iff]
  simp only [Still, hlocal]

/-- No closing brace of a text is followed by a closing parenthesis, but for blanks. -/
def Unended (s : Text) : Prop := ∀ x y, s = x ++ '\x7d' :: y → (y.dropWhile isBlank).head? ≠ some ')'

theorem unended_iff : Unended s ↔ Still afterEnd? s [] := by
  have hend : ∀ d y, afterEnd? (d :: y) = none ↔ (d = '\x7d' → (y.dropWhile isBlank).head? ≠ some ')') := by
    intro d y
    by_cases hd : d = '\x7d'
    · subst hd
      simp only [afterEnd?, Text.after?, if_true, Option.bind_eq_bind, Option.bind_some, true_imp_iff]
      rcases hdrop : y.dropWhile isBlank with _ | ⟨c, z⟩
      · simp [Text.after?]
      · by_cases hc : ')' = c
        · subst hc
          simp [Text.after?]
          split <;> simp
        · simp [Text.after?, hc, Ne.symm hc]
    · simp [afterEnd?, Text.after?, hd, Ne.symm hd]
  constructor
  · rintro h before d behind rfl
    rw [List.append_nil, hend]
    rintro rfl
    exact h before behind rfl
  · rintro h x y rfl
    have hnone := h x '\x7d' y rfl
    rw [List.append_nil, hend] at hnone
    exact hnone rfl

/-! ## Unwrapping -/

theorem bodyFrom_of_still (h : Still afterEnd? s []) (passed : Text) : bodyFrom passed s = none := by
  induction s generalizing passed with
  | nil => rfl
  | cons d s ih =>
    obtain ⟨hd, hs⟩ := Scan.still_cons.1 h
    rw [List.append_nil] at hd
    rw [bodyFrom, hd]
    exact ih hs _

theorem bodyFrom_append {d : Char} {t : Text} (h : Still afterEnd? a (d :: t)) (hend : afterEnd? (d :: t) = some rest)
    (passed : Text) : bodyFrom passed (a ++ d :: t) = some (passed.reverse ++ a, rest) := by
  induction a generalizing passed with
  | nil => simp [bodyFrom, hend]
  | cons b a ih =>
    obtain ⟨hb, ha⟩ := Scan.still_cons.1 h
    rw [List.cons_append, bodyFrom, hb]
    simp only [ih ha]
    simp

theorem exists_of_bodyFrom (h : bodyFrom [] s = some (a, rest)) : ∃ x, s = x ++ rest := by
  rcases still_or_first afterEnd? s with hs | ⟨b, d, t, rest', rfl, hend, hb⟩
  · rw [bodyFrom_of_still hs] at h
    cases h
  · rw [bodyFrom_append hb hend] at h
    cases h
    obtain ⟨e, he, -⟩ := exists_of_afterEnd? hend
    exact ⟨b ++ '\x7d' :: e, by simp [he]⟩

theorem bodyFrom_closing (w : Wrapper) (h : Unended a) (s : Text) :
    bodyFrom [] (a ++ (w.closing ++ s)) = some (a, s) := by
  obtain ⟨c, hc, -, -⟩ := w.exists_closing
  have hend := afterEnd?_closing w s
  rw [hc] at hend ⊢
  exact bodyFrom_append (still_append_brace.2 (unended_iff.1 h)) hend []

theorem unwrapReady_of_opening (hopening : afterOpening? s = some inside)
    (hbody : bodyFrom [] inside = some (a, rest)) : unwrapReady s = a ++ unwrapReady rest := by
  have hmark : readyWrapper s = some (a, s.length - rest.length) := by simp [readyWrapper, hopening, hbody]
  obtain ⟨o, rfl⟩ := exists_of_afterOpening? hopening
  obtain ⟨x, rfl⟩ := exists_of_bodyFrom hbody
  rw [← List.append_assoc, ← List.cons_append] at hmark ⊢
  rw [List.length_append, Nat.add_sub_cancel] at hmark
  exact Scan.substitute_append_of_mark (List.cons_ne_nil _ _) hmark

theorem unended_or_cut (body : Text) : Unended body ∨ ∃ a e b, body = a ++ '\x7d' :: (e ++ b) ∧ Unended a ∧
    '\x7d' ∉ e ∧ afterEnd? ('\x7d' :: (e ++ b)) = some b := by
  rw [unended_iff]
  rcases still_or_first afterEnd? body with h | ⟨a, d, t, b, rfl, hend, ha⟩
  · exact .inl h
  · obtain ⟨e, he, hbrace⟩ := exists_of_afterEnd? hend
    rw [he] at hend ha ⊢
    exact .inr ⟨a, e, b, rfl, unended_iff.2 (still_append_brace.1 ha), hbrace, hend⟩

theorem unended_of_bodyFrom (h : bodyFrom [] s = none) : Unended s := by
  rcases unended_or_cut s with hs | ⟨a, e, b, rfl, ha, -, hend⟩
  · exact hs
  · rw [bodyFrom_append (still_append_brace.2 (unended_iff.1 ha)) hend] at h
    cases h

theorem unwrapReady_around (w : Wrapper) (h : Unended a) : unwrapReady (w.around a) = a := by
  have hbody := bodyFrom_closing w h []
  rw [List.append_nil] at hbody
  rw [Wrapper.around, unwrapReady_of_opening (afterOpening?_opened w _) hbody]
  exact List.append_nil a

theorem unwrapReady_around_cut (w : Wrapper) (ha : Unended a) (hend : afterEnd? ('\x7d' :: (e ++ b)) = some b) :
    unwrapReady (w.around (a ++ '\x7d' :: (e ++ b))) = a ++ unwrapReady (b ++ w.closing) := by
  obtain ⟨c, hc, -, -⟩ := w.exists_closing
  have hcut : afterEnd? ('\x7d' :: (e ++ b ++ w.closing)) = some (b ++ w.closing) := by
    rw [hc, ← List.cons_append, afterEnd?_append_brace, hend]
    rfl
  have hbody : bodyFrom [] (a ++ '\x7d' :: (e ++ b) ++ w.closing) = some (a, b ++ w.closing) := by
    rw [List.append_assoc, List.cons_append]
    exact bodyFrom_append (still_append_brace.2 (unended_iff.1 ha)) hcut []
  exact unwrapReady_of_opening (afterOpening?_opened w _) hbody

/-- In what stands in front of a stray end of a wrapper, no wrapper is taken off, or one that is opened there is. -/
theorem unwrapReady_append_closing (w : Wrapper) (hfree : Still readyWrapper b []) :
    unwrapReady (b ++ w.closing) = b ++ w.closing ∨ (unwrapReady (b ++ w.closing)).length < b.length := by
  obtain ⟨c, hc, -, hd⟩ := w.exists_closing
  rcases still_or_first readyWrapper (b ++ w.closing) with h | ⟨x, d, t, found, hsplit, hfound, hx⟩
  · exact .inl (Scan.substitute_of_still h)
  · simp only [readyWrapper, Option.bind_eq_bind, Option.bind_eq_some_iff] at hfound
    obtain ⟨inside, hopening, -⟩ := hfound
    obtain ⟨o, ho⟩ := exists_of_afterOpening? hopening
    obtain ⟨rfl, -⟩ := List.cons.inj ho
    -- the opening stands in front of the stray end, which holds no such letter
    obtain ⟨y, rfl, hy⟩ : ∃ y, b = x ++ y ∧ y ++ w.closing = 'd' :: t := by
      rcases List.append_eq_append_iff.1 hsplit with ⟨y, rfl, hy⟩ | ⟨y, hy, htail⟩
      · have hmem : 'd' ∈ w.closing := by simp [hy]
        rw [hc] at hmem
        exact absurd hmem (by simp [hd])
      · exact ⟨y, hy, htail.symm⟩
    rw [← hy] at hopening hx
    obtain ⟨z, hz, rfl⟩ : ∃ z, afterOpening? y = some z ∧ z ++ w.closing = inside := by
      rwa [hc, afterOpening?_append_brace, Option.map_eq_some_iff, ← hc] at hopening
    obtain ⟨o', rfl⟩ := exists_of_afterOpening? hz
    have hnone : readyWrapper ('d' :: (o' ++ z)) = none := by
      simpa using (still_append.1 hfree).2 [] 'd' (o' ++ z) rfl
    have hunclosed : bodyFrom [] z = none := by
      cases hread : bodyFrom [] z with
      | none => rfl
      | some found => simp [readyWrapper, hz, hread] at hnone
    have hbody := bodyFrom_closing w (unended_of_bodyFrom hunclosed) []
    rw [List.append_nil] at hbody
    have hunwrap : unwrapReady (x ++ 'd' :: (o' ++ z) ++ w.closing) = x ++ z := by
      rw [List.append_assoc, unwrapReady, Scan.substitute_append_of_still hx, ← unwrapReady,
        unwrapReady_of_opening hopening hbody]
      exact congrArg (x ++ ·) (List.append_nil z)
    rw [hunwrap]
    simp

/-- Texts with one brace each, at the front: if they may be moved past a text, they are equal and it repeats them. -/
theorem eq_replicate_of_append_eq {d : Char} (he : d ∉ e) (hc : d ∉ c) (h : b ++ d :: c = d :: (e ++ b)) :
    e = c ∧ ∃ n, b = (List.replicate n (d :: c)).flatten := by
  induction hn : b.length using Nat.strongRecOn generalizing b with
  | _ n ih =>
    cases b with
    | nil => exact ⟨by simpa using h.symm, 0, rfl⟩
    | cons f b =>
      rw [List.cons_append, List.cons.injEq] at h
      obtain ⟨rfl, h⟩ := h
      rcases List.append_eq_append_iff.1 h with ⟨y, rfl, hy⟩ | ⟨y, rfl, hy⟩
      · cases y with
        | nil =>
          obtain ⟨-, rfl⟩ := List.cons.inj hy
          exact ⟨List.append_nil _, 1, by simp⟩
        | cons g y =>
          obtain ⟨rfl, -⟩ := List.cons.inj hy
          simp at he
      · rw [← List.cons_append] at hy
        obtain ⟨rfl, k, rfl⟩ := ih y.length (by rw [← hn]; simp) hy.symm rfl
        exact ⟨rfl, k + 1, by simp [List.replicate_succ]⟩

theorem not_mem_closings (w : Wrapper) (n : Nat) : 'd' ∉ (List.replicate n w.closing).flatten := by
  obtain ⟨c, hc, -, hd⟩ := w.exists_closing
  intro hmem
  obtain ⟨u, hu, hmem⟩ := List.mem_flatten.1 hmem
  rw [List.eq_of_mem_replicate hu, hc] at hmem
  simp [hd] at hmem

theorem unwrapReady_of_not_mem (h : 'd' ∉ s) : unwrapReady s = s := by
  refine Scan.substitute_of_still (still_of_forall (fun d hd t => ?_) [])
  have hnone : afterOpening? (d :: t) = none := by
    rw [Option.eq_none_iff_forall_not_mem]
    intro inside hinside
    obtain ⟨o, ho⟩ := exists_of_afterOpening? hinside
    rw [(List.cons.inj ho).1] at hd
    exact h hd
  simp [readyWrapper, hnone]

/-- A body without a wrapper comes out of a wrapper as it was if and only if no closing brace of it is followed by a
closing parenthesis, but for blanks, other than in a run of this wrapper's ends at the end of the body. -/
theorem unwrapReady_around_iff (w : Wrapper) {body : Text} (hfree : Scan.marks readyWrapper body = []) :
    unwrapReady (w.around body) = body ↔ ∃ a n, body = a ++ (List.replicate n w.closing).flatten ∧ Unended a := by
  obtain ⟨c, hc, hbrace, -⟩ := w.exists_closing
  constructor
  · intro h
    rcases unended_or_cut body with hbody | ⟨a, e, b, rfl, ha, he, hend⟩
    · exact ⟨body, 0, by simp, hbody⟩
    · rw [unwrapReady_around_cut w ha hend, List.append_cancel_left_eq] at h
      have hb : Still readyWrapper b [] := by
        have hall := Scan.marks_eq_nil_iff.1 hfree
        rw [← List.cons_append, still_append, still_append] at hall
        exact hall.2.2
      rcases unwrapReady_append_closing w hb with heq | hlt
      · rw [heq, hc] at h
        obtain ⟨rfl, n, rfl⟩ := eq_replicate_of_append_eq he hbrace h
        exact ⟨a, n + 1, by simp [hc, List.replicate_succ], ha⟩
      · -- a text that is shorter than `b` does not end with it
        rw [h] at hlt
        simp at hlt
        omega
  · rintro ⟨a, n, rfl, ha⟩
    cases n with
    | zero => simpa using unwrapReady_around w ha
    | succ n =>
      have hend : afterEnd? ('\x7d' :: (c ++ (List.replicate n w.closing).flatten)) =
          some (List.replicate n w.closing).flatten := by
        rw [← List.cons_append, ← hc]
        exact afterEnd?_closing w _
      have hshift : (List.replicate n w.closing).flatten ++ w.closing = (List.replicate (n + 1) w.closing).flatten := by
        rw [List.replicate_succ']
        simp
      have hsplit : (List.replicate (n + 1) w.closing).flatten =
          '\x7d' :: (c ++ (List.replicate n w.closing).flatten) := by
        rw [List.replicate_succ, List.flatten_cons, ← List.cons_append, ← hc]
      rw [hsplit, unwrapReady_around_cut w ha hend, hshift, unwrapReady_of_not_mem (not_mem_closings w _), hsplit]

def usualWrapper : Wrapper where
  openQuote := '"'
  closeQuote := '"'
  beforeArguments := [' ']
  beforeArrow := [' ']
  beforeBrace := [' ']
  beforeEnd := []
  quotes := by simp
  blanks := List.all_eq_true.1 (by decide)

theorem unwrapReady_around_callback :
    Scan.marks readyWrapper "items.forEach(() => \x7b show(); \x7d);".toList = [] ∧
      unwrapReady (usualWrapper.around "items.forEach(() => \x7b show(); \x7d);".toList) =
        "items.forEach(() => \x7b show(); \x7d);".toList := by
  have hfree : Scan.marks readyWrapper "items.forEach(() => \x7b show(); \x7d);".toList = [] := by cbv
  refine ⟨hfree, (unwrapReady_around_iff usualWrapper hfree).2 ⟨"items.forEach(() => \x7b show(); ".toList, 1, ?_, ?_⟩⟩
  · decide
  · exact unended_of_bodyFrom (by cbv)

/-- The brackets of a text close in order; `awaited` holds the closing ones still to come, the next one first. -/
def balancedFrom (awaited : Text) : Text → Bool
  | [] => awaited.isEmpty
  | c :: s =>
    match [('(', ')'), ('[', ']'), ('\x7b', '\x7d')].lookup c with
    | some d => balancedFrom (d :: awaited) s
    | none =>
      if [')', ']', '\x7d'].contains c then
        match awaited with
        | d :: awaited => c == d && balancedFrom awaited s
        | [] => false
      else balancedFrom awaited s

def callbackBody : Text := "items.forEach(() => \x7b show(); \x7d); hide();".toList

/-- The brace of the callback is taken for the wrapper's, and the statement behind it moves into the callback. -/
theorem unwrapReady_moves_statement :
    balancedFrom [] callbackBody = true ∧ Scan.marks readyWrapper callbackBody = [] ∧
      unwrapReady (usualWrapper.around callbackBody) = "items.forEach(() => \x7b show();  hide();\x7d);".toList ∧
      unwrapReady (usualWrapper.around callbackBody) ≠ callbackBody := by
  have hout : unwrapReady (usualWrapper.around callbackBody) =
      "items.forEach(() => \x7b show();  hide();\x7d);".toList := by
    have hcut := unwrapReady_around_cut (a := "items.forEach(() => \x7b show(); ".toList) (b := " hide();".toList)
      (e := ");".toList) usualWrapper (unended_of_bodyFrom (by cbv)) (by decide)
    have hrest : unwrapReady (" hide();".toList ++ usualWrapper.closing) = " hide();\x7d);".toList := by cbv
    rw [hrest] at hcut
    exact hcut
  refine ⟨by cbv, by cbv, hout, ?_⟩
  rw [hout]
  decide

end Sitewright.Build
