import Sitewright.Proofs.Template.Occurrences
import Sitewright.Proofs.Text.Occurrence
/-!
# Rendering what has been rendered

A text that is put in for a variable is not looked at again, so it may hold a placeholder itself, or make one up with
what stands beside it. A second rendering replaces such a placeholder, and changes the text unless the placeholder
stands for itself.

* `Variable.Unfinished`: a text ends with the begin of a placeholder.

Main statement: `Variable.render_again`.
-/
set_option autoImplicit false

namespace Sitewright.Variable

open Template (braces)
open Scan (Still still_append still_cons still_nil)

variable {s u w last p q out : Text} {i : Nat} {row : List (Text × Text)} {tree : Variables} {f : Text → Text}

/-! ## Texts that no placeholder begins in -/

/-- The text ends with the begin of a placeholder that is not finished in it. -/
def Unfinished (u : Text) : Prop := ∃ q x y, Dotted q ∧ braces q = x ++ y ∧ x ≠ [] ∧ y ≠ [] ∧ x <:+ u

theorem quiet_of_finished (hfree : ∀ i q, ¬ Occurs u i q) (hend : ¬ Unfinished u) : Scan.Quiet placeholder u := by
  rintro before c behind rest rfl
  cases hfound : placeholder (c :: (behind ++ rest)) with
  | none => rfl
  | some found =>
    obtain ⟨q, n⟩ := found
    obtain ⟨hq, hpre, -⟩ := placeholder_eq_some_iff.1 hfound
    rw [← List.cons_append] at hpre
    rcases Text.front_append hpre with hwhole | ⟨y, hy, hsplit, -⟩
    · refine absurd ⟨hq, ?_⟩ (hfree before.length q)
      rwa [List.drop_left]
    · exact absurd ⟨q, c :: behind, y, hq, hsplit, List.cons_ne_nil _ _, hy, List.suffix_append _ _⟩ hend

theorem Unfinished.mem (h : Unfinished u) : '\x7b' ∈ u := by
  obtain ⟨q, x, y, -, hsplit, hx, -, hsuffix⟩ := h
  obtain ⟨c, x, rfl⟩ := List.exists_cons_of_ne_nil hx
  rw [List.cons_append] at hsplit
  obtain ⟨rfl, -⟩ := List.cons.inj hsplit
  exact hsuffix.subset List.mem_cons_self

theorem Unfinished.mono (h : Unfinished u) (hsuffix : u <:+ w) : Unfinished w := by
  obtain ⟨q, x, y, hq, hsplit, hx, hy, hxu⟩ := h
  exact ⟨q, x, y, hq, hsplit, hx, hy, hxu.trans hsuffix⟩

theorem still_lay (h : ∀ e ∈ row, Scan.Quiet placeholder e.1 ∧ Scan.Quiet placeholder (f e.2))
    (hlast : Still placeholder last []) : Still placeholder (lay f row last) [] := by
  induction row with
  | nil => exact hlast
  | cons e row ih =>
    obtain ⟨⟨hstretch, hvalue⟩, hrow⟩ := List.forall_mem_cons.1 h
    rw [lay_cons, still_append, still_append]
    exact ⟨hstretch.still _, hvalue.still _, ih hrow⟩

theorem Parted.still_last (h : Parted s row last) : Still placeholder last [] := by
  induction h with
  | last hu => exact hu
  | cons hq hu h ih => exact ih

theorem Parted.free_stretch {e : Text × Text} (h : Parted s row last) (he : e ∈ row) :
    ∀ j p, ¬ Occurs e.1 j p := by
  induction h with
  | last hu => cases he
  | @cons u q s last row hq hu h ih =>
    rcases List.mem_cons.1 he with rfl | he
    · exact fun j p hoccurs => still_iff.1 hu j p hoccurs.lt_length (hoccurs.append_left _)
    · exact ih he

/-! ## Texts that rendering does not change -/

theorem eq_braces_of_append_eq {g v : Text} (hself : braces q <:+: v → v = braces q)
    (h : v ++ last = g ++ (braces q ++ (last ++ w))) : g = [] ∧ v = braces q ∧ w = [] := by
  have hlen := congrArg List.length h
  simp only [List.length_append] at hlen
  have hpre : g ++ braces q <+: v := by
    refine List.prefix_of_prefix_length_le ?_ (List.prefix_append v last) (by rw [List.length_append]; omega)
    rw [h, ← List.append_assoc]
    exact List.prefix_append _ _
  have heq : v = braces q := hself ((List.suffix_append g (braces q)).isInfix.trans hpre.isInfix)
  rw [heq] at hlen
  exact ⟨List.length_eq_zero_iff.1 (by omega), heq, List.length_eq_zero_iff.1 (by omega)⟩

/-- If no placeholder stands for a longer text that holds it, what is put in for them leaves a text as it is, or its
begin, only where each placeholder stands for itself. -/
theorem lay_eq_append (hself : ∀ e ∈ row, braces e.2 <:+: f e.2 → f e.2 = braces e.2)
    (h : lay f row last = lay braces row last ++ w) : w = [] ∧ ∀ e ∈ row, f e.2 = braces e.2 := by
  -- from the last placeholder to the first one: nothing is gained behind a front, so nothing is lost in it
  induction row using List.reverseRecOn generalizing last w with
  | nil =>
    rw [lay_nil, lay_nil] at h
    exact ⟨List.append_right_eq_self.1 h.symm, List.forall_mem_nil _⟩
  | append_singleton row e ih =>
    obtain ⟨u, q⟩ := e
    rw [List.forall_mem_append, List.forall_mem_singleton] at hself ⊢
    obtain ⟨hrow, hq⟩ := hself
    simp only [lay_append, lay_nil, List.append_assoc] at h
    rcases List.append_eq_append_iff.1 h with ⟨g, hfront, hrest⟩ | ⟨g, hfront, hrest⟩
    · obtain ⟨rfl, heq, hw⟩ := eq_braces_of_append_eq hq hrest
      rw [List.append_nil] at hfront
      exact ⟨hw, (ih (w := []) hrow (by rw [List.append_nil, hfront])).2, heq⟩
    · obtain ⟨rfl, hall⟩ := ih hrow hfront
      obtain ⟨-, heq, hw⟩ := eq_braces_of_append_eq (g := []) hq hrest.symm
      exact ⟨hw, hall, heq⟩

theorem Parted.forall_iff {P : Text → Prop} (h : Parted s row last) :
    (∀ i q, Occurs s i q → P q) ↔ ∀ e ∈ row, P e.2 := by
  rw [forall_occurs_iff, h.marks, List.forall_mem_map]

theorem Parted.render_eq_ok_iff (h : Parted s row last) : render s tree = .ok out ↔
    (∀ e ∈ row, ∃ t, resolve e.2 tree = .ok t) ∧ out = lay (textAt tree) row last := by
  rw [Variable.render_eq_ok_iff, h.substitute, h.forall_iff]

/-- A text that has been rendered is rendered to itself if no value that was put in holds a placeholder or ends with the
begin of one, and none begins in front of a placeholder of the text without having ended there. In general, where no
placeholder of the result leads to a longer text that holds it, this is so if and only if each leads to itself. -/
theorem render_again (h : render s tree = .ok out) :
    ((∀ i q, Occurs s i q → ¬ Unfinished (s.take i) ∧ (∀ j p, ¬ Occurs (textAt tree q) j p) ∧
        ¬ Unfinished (textAt tree q)) → render out tree = .ok out) ∧
    ((∀ i q, Occurs out i q → braces q <:+: textAt tree q → textAt tree q = braces q) →
      (render out tree = .ok out ↔ ∀ i q, Occurs out i q → resolve q tree = .ok (braces q))) := by
  constructor
  · intro hfinished
    obtain ⟨row, last, hparted⟩ := exists_parted s
    obtain ⟨-, rfl⟩ := hparted.render_eq_ok_iff.1 h
    have hstill : Still placeholder (lay (textAt tree) row last) [] := by
      refine still_lay (fun e he => ?_) hparted.still_last
      obtain ⟨before, after, rfl⟩ := List.mem_iff_append.1 he
      obtain ⟨hu, hvalue, hend⟩ := hfinished _ e.2 (hparted.occurs_iff.2 ⟨before, e.1, after, rfl, rfl⟩)
      rw [hparted.text, lay_append, List.take_left] at hu
      refine ⟨quiet_of_finished (hparted.free_stretch he) fun h => hu (h.mono ?_), quiet_of_finished hvalue hend⟩
      exact List.suffix_append _ _
    exact (Parted.last hstill).render_eq_ok_iff.2 ⟨List.forall_mem_nil _, rfl⟩
  · intro hself
    obtain ⟨row, last, hparted⟩ := exists_parted out
    rw [hparted.forall_iff] at hself ⊢
    rw [hparted.render_eq_ok_iff]
    constructor
    · rintro ⟨hok, heq⟩ e he
      have hlay : lay (textAt tree) row last = lay braces row last ++ [] := by
        rw [List.append_nil, ← heq, ← hparted.text]
      obtain ⟨t, ht⟩ := hok e he
      rw [ht, ← (lay_eq_append hself hlay).2 e he, textAt_of_ok ht]
    · intro hall
      refine ⟨fun e he => ⟨_, hall e he⟩, ?_⟩
      rw [lay_congr fun e he => textAt_of_ok (hall e he)]
      exact hparted.text

/-- A title, and texts that hold a placeholder for the title or for themselves. -/
def linkedTree : Variables :=
  [("SITE".toList, .object [("title".toList, .string "Acme".toList),
    ("link".toList, .string (braces "SITE.title".toList)), ("self".toList, .string (braces "SITE.self".toList))])]

theorem render_again_linked :
    (render ("<b>".toList ++ braces "SITE.title".toList) linkedTree = .ok "<b>Acme".toList ∧
      render "<b>Acme".toList linkedTree = .ok "<b>Acme".toList) ∧
    render (braces "SITE.self".toList) linkedTree = .ok (braces "SITE.self".toList) ∧
      resolve "SITE.self".toList linkedTree = .ok (braces "SITE.self".toList) := by
  have htitle : render ("<b>".toList ++ braces "SITE.title".toList) linkedTree = .ok "<b>Acme".toList := by cbv
  have hself : render (braces "SITE.self".toList) linkedTree = .ok (braces "SITE.self".toList) := by cbv
  have hvalue : textAt linkedTree "SITE.title".toList = "Acme".toList := by cbv
  have hmarks : Scan.marks placeholder (braces "SITE.self".toList) = ["SITE.self".toList] := by cbv
  have hstill : ∀ v, Still placeholder "<b>".toList v := by simp [still_cons, still_nil, placeholder]
  refine ⟨⟨htitle, (render_again htitle).1 fun i q hoccurs => ?_⟩, hself, ?_⟩
  · have hpath : Dotted "SITE.title".toList := isPath_iff.1 (by cbv)
    rw [← List.append_nil (braces _), occurs_cons_iff hpath (hstill _)] at hoccurs
    rcases hoccurs with ⟨rfl, rfl⟩ | ⟨k, rfl, hoccurs⟩
    · rw [hvalue, List.take_left]
      exact ⟨fun h => absurd h.mem (by decide), fun j p h => absurd h.mem (by decide), fun h => absurd h.mem (by decide)⟩
    · cases hoccurs.lt_length
  · have hiff := (render_again hself).2
    simp only [forall_occurs_iff, hmarks, List.forall_mem_singleton] at hiff
    exact (hiff fun _ => by cbv).1 hself

theorem render_again_changes :
    ¬ ∀ s tree out, render s tree = .ok out → render out tree = .ok out := by
  intro h
  have hagain := h (braces "SITE.link".toList) linkedTree (braces "SITE.title".toList) (by cbv)
  have hchanged : render (braces "SITE.title".toList) linkedTree = .ok "Acme".toList := by cbv
  rw [hchanged] at hagain
  exact absurd hagain (by decide)

end Sitewright.Variable
