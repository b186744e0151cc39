import Sitewright.Proofs.Template.Placing
import Sitewright.Proofs.Template.Tokens
import Sitewright.Proofs.Text.Splitting
/-!
# Where placeholders stand

A scan meets the placeholders of a text one behind the other, which leaves out those that begin within the one before.
No placeholder does: behind its first brace there are no two opening braces in a row. So the scan meets all of them, and
rendering replaces every placeholder that stands anywhere in the text.

* `Variable.Dotted`: a path as it stands in a placeholder.
* `Variable.Occurs`: a placeholder stands at a place of a text.
* `Variable.Parted`: a text in its placeholders and the stretches between them.
* `Variable.Straddles`: a placeholder begins in the first of two texts and ends in the second one.

Main statement: `Variable.render_replaces`.
-/
set_option autoImplicit false

namespace Sitewright.Variable

open Template (braces braced_placeholder placeholder_of_path)
open Scan (Still still_or_first substitute)

variable {a b s u v last p q out : Text} {i j : Nat} {row : List (Text × Text)} {tree : Variables}

/-! ## The form of a placeholder -/

/-- A path as it stands in a placeholder: a name in capitals and at least one segment, each behind a dot. -/
inductive Dotted : Text → Prop
  | intro {name : Text} {segments : List Text} (hname : name ≠ []) (hcapital : ∀ c ∈ name, isCapital c = true)
      (hsegments : segments ≠ []) (hword : ∀ t ∈ segments, t ≠ [] ∧ ∀ c ∈ t, isWord c = true) :
      Dotted (name ++ segments.flatMap ('.' :: ·))

theorem isPath_iff : isPath p = true ↔ Dotted p := by
  constructor
  · intro h
    unfold isPath at h
    split at h
    · rename_i name segments hsplit
      simp only [Bool.and_eq_true, Bool.not_eq_true', List.isEmpty_eq_false_iff, List.all_eq_true] at h
      obtain ⟨⟨⟨hname, hcapital⟩, hsegments⟩, hword⟩ := h
      rw [← Text.join_splitOn '.' p, hsplit, Text.join_cons]
      exact .intro hname hcapital hsegments hword
    · cases h
  · rintro ⟨hname, hcapital, hsegments, hword⟩
    rename_i name segments
    have hdot : ∀ part ∈ name :: segments, '.' ∉ part := by
      refine List.forall_mem_cons.2 ⟨fun hc => ?_, fun t ht hc => ?_⟩
      · exact absurd (hcapital _ hc) (by decide)
      · exact absurd ((hword t ht).2 _ hc) (by decide)
    rw [← Text.join_cons, isPath, Text.splitOn_join (by simp) hdot]
    simpa [hname, hsegments, List.isEmpty_eq_false_iff] using ⟨hcapital, hword⟩

/-- The path as the address of a variable in a template. -/
def Dotted.address (h : Dotted p) : Template.Address := ⟨p, isPath_iff.2 h⟩

theorem Dotted.braceFree (h : Dotted p) : Template.BraceFree p := fun c hc =>
  Template.braceFree_of_isWord (h.address.spec.2 c hc)

theorem placeholder_eq_some_iff {n : Nat} :
    placeholder s = some (q, n) ↔ Dotted q ∧ braces q <+: s ∧ n = (braces q).length := by
  constructor
  · intro h
    unfold placeholder at h
    split at h
    · rename_i t
      simp only at h
      split at h
      · rename_i behind hdrop
        split at h
        · rename_i hpath
          cases h
          have ht := Text.takeWhile_append_drop (fun c => c = '.' || isWord c) t
          rw [hdrop] at ht
          refine ⟨isPath_iff.1 hpath, ⟨behind, ?_⟩, (Template.length_braces _).symm⟩
          conv_rhs => rw [← ht]
          simp [braces]
        · cases h
      · cases h
    · cases h
  · rintro ⟨hq, ⟨rest, rfl⟩, rfl⟩
    exact placeholder_of_path hq.address rest

/-! ## Places -/

/-- Behind the first `i` characters of a text stands a placeholder. -/
def Occurs (s : Text) (i : Nat) (path : Text) : Prop := Dotted path ∧ braces path <+: s.drop i

theorem occurs_iff : Occurs s i q ↔ placeholder (s.drop i) = some (q, (braces q).length) := by
  simp [placeholder_eq_some_iff, Occurs]

theorem Occurs.length_le (h : Occurs s i q) : i + (braces q).length ≤ s.length := by
  have hle := h.2.length_le
  have hpos := Template.length_braces q
  rw [List.length_drop] at hle
  omega

theorem Occurs.lt_length (h : Occurs s i q) : i < s.length := by
  have hle := h.length_le
  rw [Template.length_braces] at hle
  omega

theorem Occurs.mem (h : Occurs s i q) : '\x7b' ∈ s :=
  List.mem_of_mem_drop (h.2.subset List.mem_cons_self)

theorem occurs_append_right : Occurs (u ++ v) (u.length + i) q ↔ Occurs v i q := by
  rw [Occurs, Occurs, List.drop_length_add_append]

theorem Occurs.append_left (h : Occurs u i q) (v : Text) : Occurs (u ++ v) i q := by
  refine ⟨h.1, ?_⟩
  rw [List.drop_append_of_le_length ((Nat.le_add_right i _).trans h.length_le)]
  exact h.2.trans (List.prefix_append _ _)

theorem Occurs.of_append (h : Occurs (u ++ v) i q) (hle : i + (braces q).length ≤ u.length) : Occurs u i q := by
  obtain ⟨hq, hpre⟩ := h
  rw [List.drop_append_of_le_length ((Nat.le_add_right i _).trans hle)] at hpre
  refine ⟨hq, List.prefix_of_prefix_length_le hpre (List.prefix_append _ _) ?_⟩
  rw [List.length_drop]
  omega

/-- A placeholder has ended where the next one begins. -/
theorem Occurs.disjoint (hp : Occurs s i p) (hq : Occurs s j q) (hij : i < j) : i + (braces p).length ≤ j := by
  by_contra hoverlap
  obtain ⟨rest, hrest⟩ := hp.2
  have htail : braces p = '\x7b' :: ('\x7b' :: (p ++ ['\x7d', '\x7d'])) := rfl
  -- the second one would begin behind the first brace of the first one
  obtain ⟨k, rfl⟩ := Nat.exists_eq_add_of_lt hij
  have hk : k < ('\x7b' :: (p ++ ['\x7d', '\x7d'])).length := by
    rw [htail] at hoverlap
    simp only [List.length_cons] at hoverlap ⊢
    omega
  have hdrop : s.drop (i + k + 1) = ('\x7b' :: (p ++ ['\x7d', '\x7d'])).drop k ++ rest := by
    rw [Nat.add_assoc, ← List.drop_drop, ← hrest, htail, List.cons_append, List.drop_succ_cons,
      List.drop_append_of_le_length hk.le]
  rw [occurs_iff, hdrop, ((braced_placeholder.quiet_tail hp.1.braceFree).still rest).drop hk] at hq
  cases hq

theorem Occurs.unique (hp : Occurs s i p) (hq : Occurs s i q) : p = q := by
  rw [occurs_iff] at hp hq
  rw [hp] at hq
  cases hq
  rfl

theorem still_iff : Still placeholder u v ↔ ∀ i q, i < u.length → ¬ Occurs (u ++ v) i q := by
  constructor
  · intro h i q hi hoccurs
    rw [occurs_iff, List.drop_append_of_le_length hi.le, h.drop hi] at hoccurs
    cases hoccurs
  · rintro h before c behind rfl
    cases hfound : placeholder (c :: (behind ++ v)) with
    | none => rfl
    | some found =>
      obtain ⟨q, n⟩ := found
      obtain ⟨hq, hpre, -⟩ := placeholder_eq_some_iff.1 hfound
      refine absurd ⟨hq, ?_⟩ (h before.length q (by simp))
      rwa [List.append_assoc, List.drop_left, List.cons_append]

/-! ## A text in parts -/

/-- A text in parts: stretches, in which no placeholder begins, with a placeholder behind each, and a last stretch. -/
inductive Parted : Text → List (Text × Text) → Text → Prop
  | last {u : Text} (hu : Still placeholder u []) : Parted u [] u
  | cons {u q s last : Text} {row : List (Text × Text)} (hq : Dotted q) (hu : Still placeholder u (braces q ++ s))
      (h : Parted s row last) : Parted (u ++ (braces q ++ s)) ((u, q) :: row) last

/-- The stretches with a text for each path behind them, and a last stretch. -/
def lay (f : Text → Text) (row : List (Text × Text)) (last : Text) : Text :=
  row.flatMap (fun e => e.1 ++ f e.2) ++ last

theorem lay_nil (f : Text → Text) (last : Text) : lay f [] last = last := rfl

theorem lay_cons (f : Text → Text) (u q : Text) (row : List (Text × Text)) (last : Text) :
    lay f ((u, q) :: row) last = u ++ (f q ++ lay f row last) := by
  simp [lay]

theorem lay_append (f : Text → Text) (before after : List (Text × Text)) (u q last : Text) :
    lay f (before ++ (u, q) :: after) last = lay f before u ++ (f q ++ lay f after last) := by
  simp [lay]

theorem lay_congr {f g : Text → Text} (h : ∀ e ∈ row, f e.2 = g e.2) (last : Text) : lay f row last = lay g row last := by
  induction row with
  | nil => rfl
  | cons e row ih =>
    obtain ⟨he, hrow⟩ := List.forall_mem_cons.1 h
    rw [lay_cons, lay_cons, he, ih hrow]

theorem exists_parted (s : Text) : ∃ row last, Parted s row last := by
  induction hn : s.length using Nat.strongRecOn generalizing s with
  | _ n ih =>
    rcases still_or_first placeholder s with h | ⟨u, c, t, ⟨q, k⟩, rfl, hfound, hu⟩
    · exact ⟨[], s, .last h⟩
    · obtain ⟨hq, ⟨rest, hrest⟩, -⟩ := placeholder_eq_some_iff.1 hfound
      have hlt : rest.length < n := by
        rw [← hn, ← hrest, List.length_append, List.length_append, Template.length_braces]
        omega
      obtain ⟨row, last, h⟩ := ih rest.length hlt rest rfl
      rw [← hrest] at hu ⊢
      exact ⟨_, last, .cons hq hu h⟩

theorem Parted.text (h : Parted s row last) : s = lay braces row last := by
  induction h with
  | last hu => rfl
  | cons hq hu h ih => rw [lay_cons, ← ih]

theorem braces_ne_nil (q : Text) : braces q ≠ [] := List.cons_ne_nil _ _

theorem Dotted.placeholder_eq (h : Dotted q) (s : Text) : placeholder (braces q ++ s) = some (q, (braces q).length) :=
  placeholder_eq_some_iff.2 ⟨h, List.prefix_append _ _, rfl⟩

theorem Parted.substitute (h : Parted s row last) (f : Text → Text) :
    substitute placeholder (fun path _ => f path) s = lay f row last := by
  induction h with
  | last hu => rw [Scan.substitute_of_still hu, lay_nil]
  | cons hq hu h ih =>
    rw [Scan.substitute_append_of_still hu, Scan.substitute_append_of_mark (braces_ne_nil _) (hq.placeholder_eq _), ih,
      lay_cons]

theorem Parted.marks (h : Parted s row last) : Scan.marks placeholder s = row.map Prod.snd := by
  induction h with
  | last hu => rw [Scan.marks_eq_nil_iff.2 hu, List.map_nil]
  | cons hq hu h ih =>
    rw [Scan.marks, Scan.scan_append_of_still hu, Scan.scan_append_of_mark (braces_ne_nil _) (hq.placeholder_eq _)]
    simpa [Scan.marks] using ih

/-- In front of a placeholder no other one begins that has not ended. -/
theorem occurs_cons_iff (hq : Dotted q) (hu : Still placeholder u (braces q ++ s)) :
    Occurs (u ++ (braces q ++ s)) i p ↔
      (i = u.length ∧ p = q) ∨ ∃ k, i = u.length + ((braces q).length + k) ∧ Occurs s k p := by
  have hfirst : Occurs (u ++ (braces q ++ s)) u.length q := by
    refine ⟨hq, ?_⟩
    rw [List.drop_left]
    exact List.prefix_append _ _
  constructor
  · intro h
    rcases Nat.lt_trichotomy i u.length with hlt | rfl | hlt
    · exact absurd h (still_iff.1 hu i p hlt)
    · exact .inl ⟨rfl, h.unique hfirst⟩
    · obtain ⟨k, rfl⟩ := Nat.exists_eq_add_of_le (hfirst.disjoint h hlt)
      rw [Nat.add_assoc, occurs_append_right, occurs_append_right] at h
      exact .inr ⟨k, Nat.add_assoc _ _ _, h⟩
  · rintro (⟨rfl, rfl⟩ | ⟨k, rfl, h⟩)
    · exact hfirst
    · rwa [occurs_append_right, occurs_append_right]

/-- The placeholders that stand in a text are those between its stretches. -/
theorem Parted.occurs_iff (h : Parted s row last) : Occurs s i q ↔
    ∃ before u after, row = before ++ (u, q) :: after ∧ i = (lay braces before u).length := by
  induction h generalizing i with
  | @last u hu =>
    have hnone : ¬ Occurs u i q := by
      intro hoccurs
      refine still_iff.1 hu i q hoccurs.lt_length ?_
      rwa [List.append_nil]
    simp [hnone]
  | @cons u p s last row hp hu h ih =>
    rw [occurs_cons_iff hp hu]
    constructor
    · rintro (⟨rfl, rfl⟩ | ⟨k, rfl, hoccurs⟩)
      · exact ⟨[], u, row, rfl, rfl⟩
      · obtain ⟨before, u', after, rfl, rfl⟩ := ih.1 hoccurs
        exact ⟨(u, p) :: before, u', after, rfl, by rw [lay_cons, List.length_append, List.length_append]⟩
    · rintro ⟨before, u', after, hrow, rfl⟩
      cases before with
      | nil =>
        cases hrow
        exact .inl ⟨rfl, rfl⟩
      | cons e before =>
        cases hrow
        refine .inr ⟨(lay braces before u').length, ?_, ih.2 ⟨before, u', after, rfl, rfl⟩⟩
        rw [lay_cons, List.length_append, List.length_append]

theorem Parted.mem_row (h : Parted s row last) : (∃ i, Occurs s i q) ↔ ∃ u, (u, q) ∈ row := by
  simp only [h.occurs_iff, List.mem_iff_append]
  constructor
  · rintro ⟨i, before, u, after, hrow, -⟩
    exact ⟨u, before, after, hrow⟩
  · rintro ⟨u, before, after, hrow⟩
    exact ⟨_, before, u, after, hrow, rfl⟩

theorem mem_marks_iff : q ∈ Scan.marks placeholder s ↔ ∃ i, Occurs s i q := by
  obtain ⟨row, last, h⟩ := exists_parted s
  rw [h.marks, h.mem_row]
  simp

theorem forall_occurs_iff {P : Text → Prop} :
    (∀ i q, Occurs s i q → P q) ↔ ∀ q ∈ Scan.marks placeholder s, P q := by
  simp only [mem_marks_iff]
  exact ⟨fun h q ⟨i, hoccurs⟩ => h i q hoccurs, fun h i q hoccurs => h q ⟨i, hoccurs⟩⟩

/-! ## Rendering -/

/-- The text at a path, or none where it cannot be had. -/
def textAt (tree : Variables) (path : Text) : Text := (resolve path tree).toOption.getD []

theorem textAt_of_ok {t : Text} (h : resolve p tree = .ok t) : textAt tree p = t := by
  rw [textAt, h]
  rfl

theorem mapM_of_ok {ε α β : Type} {f : α → Except ε β} {g : α → β} {xs : List α} (h : ∀ x ∈ xs, f x = .ok (g x)) :
    xs.mapM f = .ok (xs.map g) := by
  induction xs with
  | nil => rfl
  | cons x xs ih =>
    obtain ⟨hx, hxs⟩ := List.forall_mem_cons.1 h
    rw [List.mapM_cons, hx, ih hxs]
    rfl

/-- A text is rendered if and only if every path in its placeholders leads to a text or nowhere. -/
theorem render_eq_ok_iff : render s tree = .ok out ↔ (∀ i q, Occurs s i q → ∃ t, resolve q tree = .ok t) ∧
    out = substitute placeholder (fun path _ => textAt tree path) s := by
  have hok : (∀ q ∈ Scan.marks placeholder s, ∃ t, resolve q tree = .ok t) →
      render s tree = .ok (substitute placeholder (fun path _ => textAt tree path) s) := by
    intro h
    have htexts : (Scan.markPieces (Scan.scan placeholder s)).mapM (fun mark => resolve mark.1 tree) =
        .ok ((Scan.markPieces (Scan.scan placeholder s)).map fun mark => textAt tree mark.1) := by
      refine mapM_of_ok fun mark hmark => ?_
      rw [Scan.marks_eq] at h
      obtain ⟨t, ht⟩ := h mark.1 (List.mem_map_of_mem hmark)
      rw [ht, textAt_of_ok ht]
    rw [← Scan.fill_map_marks]
    unfold render Scan.substituteM
    simp only [htexts]
    rfl
  constructor
  · intro h
    obtain ⟨texts, htexts, -⟩ := Template.render_ok h
    have hall : ∀ q ∈ Scan.marks placeholder s, ∃ t, resolve q tree = .ok t := by
      intro q hq
      obtain ⟨k, hk, rfl⟩ := List.getElem_of_mem hq
      exact ⟨_, htexts.get hk (htexts.length_eq ▸ hk)⟩
    rw [hok hall] at h
    cases h
    exact ⟨forall_occurs_iff.2 hall, rfl⟩
  · rintro ⟨h, rfl⟩
    exact hok (forall_occurs_iff.1 h)

/-- A placeholder begins in the first of two texts and ends in the second one. -/
def Straddles (a b : Text) : Prop := ∃ i q, Occurs (a ++ b) i q ∧ i < a.length ∧ a.length < i + (braces q).length

theorem straddles_iff : Straddles a b ↔ ∃ i < a.length, ∃ found ∈ placeholder ((a ++ b).drop i),
    a.length < i + found.2 := by
  constructor
  · rintro ⟨i, q, hoccurs, hi, hend⟩
    exact ⟨i, hi, _, occurs_iff.1 hoccurs, hend⟩
  · rintro ⟨i, hi, ⟨q, n⟩, hfound, hend⟩
    obtain ⟨hq, hpre, rfl⟩ := placeholder_eq_some_iff.1 hfound
    exact ⟨i, q, ⟨hq, hpre⟩, hi, hend⟩

instance : Decidable (Straddles a b) :=
  decidable_of_iff _ straddles_iff.symm

theorem substitute_append (h : ¬ Straddles a b) (f : Text → Text) :
    substitute placeholder (fun path _ => f path) (a ++ b) =
      substitute placeholder (fun path _ => f path) a ++ substitute placeholder (fun path _ => f path) b := by
  obtain ⟨row, last, hparted⟩ := exists_parted a
  induction hparted with
  | @last u hu =>
    have hstill : Still placeholder u b := by
      refine still_iff.2 fun i q hi hoccurs => still_iff.1 hu i q hi ?_
      rw [List.append_nil]
      exact hoccurs.of_append (Nat.not_lt.1 fun hlt => h ⟨i, q, hoccurs, hi, hlt⟩)
    rw [Scan.substitute_append_of_still hstill, Scan.substitute_of_still hu]
  | @cons u q s last row hq hu hparted ih =>
    have hassoc : u ++ (braces q ++ s) ++ b = u ++ (braces q ++ (s ++ b)) := by simp
    have hfirst : Occurs (u ++ (braces q ++ (s ++ b))) u.length q := by
      refine ⟨hq, ?_⟩
      rw [List.drop_left]
      exact List.prefix_append _ _
    have hstill : Still placeholder u (braces q ++ (s ++ b)) := by
      refine still_iff.2 fun i p hi hoccurs => still_iff.1 hu i p hi ?_
      have hend := hoccurs.disjoint hfirst hi
      rw [← hassoc] at hoccurs
      refine hoccurs.of_append (hend.trans ?_)
      simp
    have hrest : ¬ Straddles s b := by
      rintro ⟨i, p, hoccurs, hi, hend⟩
      refine h ⟨u.length + ((braces q).length + i), p, ?_, by simp; omega, by simp; omega⟩
      rwa [hassoc, occurs_append_right, occurs_append_right]
    rw [hassoc, Scan.substitute_append_of_still hstill,
      Scan.substitute_append_of_mark (braces_ne_nil q) (hq.placeholder_eq _), ih hrest,
      Scan.substitute_append_of_still hu, Scan.substitute_append_of_mark (braces_ne_nil q) (hq.placeholder_eq _)]
    simp

/-- Placeholders do not overlap. Where each of those that stand in a text leads to a text or nowhere, the text is made of
stretches with all of its placeholders between them, and rendering keeps the stretches and puts the text of the path in
the place of each placeholder. So a text may be rendered in two parts that no placeholder straddles. -/
theorem render_replaces (s : Text) :
    (∀ i p j q, Occurs s i p → Occurs s j q →
      (i = j ∧ p = q) ∨ i + (braces p).length ≤ j ∨ j + (braces q).length ≤ i) ∧
    ∀ tree, (∀ i q, Occurs s i q → ∃ t, resolve q tree = .ok t) →
      (∃ row last, s = lay braces row last ∧ render s tree = .ok (lay (textAt tree) row last) ∧
        ∀ i q, Occurs s i q ↔
          ∃ before u after, row = before ++ (u, q) :: after ∧ i = (lay braces before u).length) ∧
      ∀ a b, s = a ++ b → ¬ Straddles a b →
        ∃ x y, render a tree = .ok x ∧ render b tree = .ok y ∧ render s tree = .ok (x ++ y) := by
  refine ⟨fun i p j q hp hq => ?_, fun tree h => ⟨?_, ?_⟩⟩
  · rcases Nat.lt_trichotomy i j with hlt | rfl | hlt
    · exact .inr (.inl (hp.disjoint hq hlt))
    · exact .inl ⟨rfl, hp.unique hq⟩
    · exact .inr (.inr (hq.disjoint hp hlt))
  · obtain ⟨row, last, hparted⟩ := exists_parted s
    refine ⟨row, last, hparted.text, ?_, fun i q => hparted.occurs_iff⟩
    exact render_eq_ok_iff.2 ⟨h, (hparted.substitute _).symm⟩
  · rintro a b rfl hstraddles
    refine ⟨_, _, render_eq_ok_iff.2 ⟨fun i q hoccurs => h i q (hoccurs.append_left b), rfl⟩,
      render_eq_ok_iff.2 ⟨fun i q hoccurs => h _ q (occurs_append_right.2 hoccurs), rfl⟩, ?_⟩
    exact render_eq_ok_iff.2 ⟨h, (substitute_append hstraddles _).symm⟩

def packedFront : Text := "\x7b\x7b\x7bSITE.title\x7d\x7d\x7d".toList

/-- A placeholder that leads nowhere, and what is none. -/
def packedRest : Text := "\x7b\x7bSITE.nope\x7d\x7d\x7b\x7bx\x7d\x7d".toList

/-- A title, in which a placeholder stands. -/
def packedTree : Variables := [("SITE".toList, .object [("title".toList, .string "\x7b\x7bA.b\x7d\x7d".toList)])]

theorem render_replaces_packed :
    (∀ i q, Occurs (packedFront ++ packedRest) i q → ∃ t, resolve q packedTree = .ok t) ∧
    ¬ Straddles packedFront packedRest ∧
    (∃ row last, packedFront ++ packedRest = lay braces row last ∧
      render (packedFront ++ packedRest) packedTree = .ok (lay (textAt packedTree) row last)) ∧
    ∃ x y, render packedFront packedTree = .ok x ∧ render packedRest packedTree = .ok y ∧
      render (packedFront ++ packedRest) packedTree = .ok (x ++ y) := by
  have hmarks : Scan.marks placeholder (packedFront ++ packedRest) = ["SITE.title".toList, "SITE.nope".toList] := by
    cbv
  have hresolves : ∀ i q, Occurs (packedFront ++ packedRest) i q → ∃ t, resolve q packedTree = .ok t := by
    rw [forall_occurs_iff, hmarks, List.forall_mem_cons, List.forall_mem_singleton]
    exact ⟨⟨"\x7b\x7bA.b\x7d\x7d".toList, by cbv⟩, [], by cbv⟩
  have hapart : ¬ Straddles packedFront packedRest := by decide
  obtain ⟨⟨row, last, htext, hrender, -⟩, happend⟩ := (render_replaces (packedFront ++ packedRest)).2 _ hresolves
  exact ⟨hresolves, hapart, ⟨row, last, htext, hrender⟩, happend _ _ rfl hapart⟩

end Sitewright.Variable
