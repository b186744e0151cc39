import Sitewright.Html.Tag
import Sitewright.Proofs.Text.Occurrence
/-!
# Tags added to a head

Each tag is added by a fresh search of a document that holds those added before it. A tag opens with an angle
bracket and a letter; the only further bracket that opens is that of the end tag of a script, which follows
one that closes. So no tag begins before the added lines and ends in them, or begins within another tag, and
two tags of which one begins with the other are the same.

* `AssetTag`: a tag that links a stylesheet or loads a script at a plain address.
* `headLines`: the lines of some tags.

Main statements: `stands_iff`, which says where a tag stands in a document with added lines, and
`foldl_appendToHead`.
-/
set_option autoImplicit false

namespace Sitewright.Html

open Text (contains cutAt? contains_iff cutAt?_eq_some_iff stands_append front_append)

/-! ## Tags -/

/-- An address without double quotes and angle brackets. -/
structure PlainUrl (url : Text) : Prop where
  noQuote : '"' ∉ url
  noOpen : '<' ∉ url
  noClose : '>' ∉ url

/-- What a tag that links a stylesheet opens with, behind its bracket. -/
def linkFront : Text := "link rel=\"stylesheet\" href=\"".toList

/-- What a tag that loads a script opens with, behind its bracket. -/
def scriptFront : Text := "script type=\"module\" src=\"".toList

def scriptEnd : Text := "</script>".toList

/-- A tag that links a stylesheet, or one that loads a script. -/
inductive AssetTag : Text → Prop
  | stylesheet {url : Text} (h : PlainUrl url) : AssetTag ('<' :: (linkFront ++ url ++ ['"', '>']))
  | script {url : Text} (h : PlainUrl url) : AssetTag ('<' :: (scriptFront ++ url ++ ['"', '>'] ++ scriptEnd))

def headLines (tags : List Text) : Text := tags.flatMap headLine

variable {t u x before rest pre y : Text} {tags us : List Text}

theorem headLines_cons (u : Text) (us : List Text) : headLines (u :: us) = headLine u ++ headLines us := rfl

theorem headLine_eq (u : Text) : headLine u = List.replicate 4 ' ' ++ u ++ ['\n'] := rfl

theorem scriptEnd_eq : scriptEnd = '<' :: '/' :: 's' :: "cript>".toList := by decide

theorem closeHead_eq : closeHead = '<' :: '/' :: 'h' :: "ead>".toList := by decide

theorem AssetTag.head (h : AssetTag t) : ∃ c tail, t = '<' :: c :: tail ∧ c ≠ '/' := by
  cases h with
  | @stylesheet url h =>
    have hfront : linkFront = 'l' :: "ink rel=\"stylesheet\" href=\"".toList := by decide
    rw [hfront]
    exact ⟨'l', _, rfl, by decide⟩
  | @script url h =>
    have hfront : scriptFront = 's' :: "cript type=\"module\" src=\"".toList := by decide
    rw [hfront]
    exact ⟨'s', _, rfl, by decide⟩

theorem AssetTag.last (h : AssetTag t) : ∃ front, t = front ++ ['>'] := by
  cases h with
  | @stylesheet url h => exact ⟨'<' :: (linkFront ++ url ++ ['"']), by simp⟩
  | @script url h =>
    have hend : scriptEnd = "</script".toList ++ ['>'] := by decide
    exact ⟨'<' :: (scriptFront ++ url ++ ['"', '>'] ++ "</script".toList), by simp [hend]⟩

/-- Behind the first character of a tag, an opening bracket is that of the end tag of a script. -/
theorem AssetTag.inner (h : AssetTag t) {a b : Text} (hab : t = a ++ '<' :: b) (ha : a ≠ []) :
    '<' :: b = scriptEnd ∧ ∃ front, a = front ++ ['>'] := by
  obtain ⟨c, a, rfl⟩ := List.exists_cons_of_ne_nil ha
  cases h with
  | @stylesheet url h =>
    have htail : linkFront ++ url ++ ['"', '>'] = a ++ '<' :: b := (List.cons.inj hab).2
    have hmem : '<' ∈ linkFront ++ url ++ ['"', '>'] := by
      rw [htail]
      simp
    have hlink : '<' ∉ linkFront := by decide
    simp [hlink, h.noOpen] at hmem
  | @script url h =>
    have htail : scriptFront ++ url ++ ['"', '>'] ++ scriptEnd = a ++ '<' :: b := (List.cons.inj hab).2
    have hfront : '<' ∉ scriptFront := by decide
    have hbody : '<' ∉ scriptFront ++ url ++ ['"', '>'] := by
      simp [hfront, h.noOpen]
    have hend : '<' ∉ '/' :: 's' :: "cript>".toList := by decide
    rw [scriptEnd_eq] at htail ⊢
    obtain ⟨rfl, -, rfl⟩ := (List.append_cons_inj_of_notMem hbody hend).1 htail
    have hc : '<' = c := (List.cons.inj hab).1
    exact ⟨rfl, '<' :: (scriptFront ++ url ++ ['"']), by simp [← hc]⟩

theorem eq_of_quote {url url' r r' : Text} (h : '"' ∉ url) (h' : '"' ∉ url')
    (heq : url ++ '"' :: r = url' ++ '"' :: r') : url = url' := by
  have hcut := congrArg (List.takeWhile (· ≠ '"')) heq
  have hstop : ∀ {v w : Text}, '"' ∉ v → (v ++ '"' :: w).takeWhile (· ≠ '"') = v := by
    intro v w hv
    rw [List.takeWhile_append_of_pos]
    · simp
    · intro c hc
      simp only [decide_eq_true_eq]
      rintro rfl
      exact hv hc
  rwa [hstop h, hstop h'] at hcut

/-- A tag that another tag begins with, whatever stands behind it, is that tag. -/
theorem AssetTag.eq_of_front (ht : AssetTag t) (hu : AssetTag u) (h : t <+: u ++ y) : t = u := by
  obtain ⟨z, hz⟩ := h
  have hlink : linkFront = 'l' :: "ink rel=\"stylesheet\" href=\"".toList := by decide
  have hscript : scriptFront = 's' :: "cript type=\"module\" src=\"".toList := by decide
  cases ht with
  | @stylesheet url h =>
    cases hu with
    | @stylesheet url' h' =>
      have htail : url ++ '"' :: ('>' :: z) = url' ++ '"' :: ('>' :: y) := by
        have hcons := (List.cons.inj hz).2
        simpa using hcons
      rw [eq_of_quote h.noQuote h'.noQuote htail]
    | @script url' h' =>
      rw [hlink, hscript] at hz
      simp at hz
  | @script url h =>
    cases hu with
    | @stylesheet url' h' =>
      rw [hlink, hscript] at hz
      simp at hz
    | @script url' h' =>
      have htail : url ++ '"' :: ('>' :: scriptEnd ++ z) = url' ++ '"' :: ('>' :: scriptEnd ++ y) := by
        have hcons := (List.cons.inj hz).2
        simpa using hcons
      rw [eq_of_quote h.noQuote h'.noQuote htail]

/-! ## Where a text stands in added lines -/

/-- A text that opens with an angle bracket stands in a line at the tag, at the end tag within the tag, or
behind the line. -/
theorem stands_headLine (hu : AssetTag u) (h : pre ++ '<' :: x <+: headLine u ++ y) :
    (pre = List.replicate 4 ' ' ∧ '<' :: x <+: u ++ '\n' :: y) ∨ '<' :: x <+: scriptEnd ++ '\n' :: y ∨
      ∃ q, pre = headLine u ++ q ∧ q ++ '<' :: x <+: y := by
  rw [headLine_eq, List.append_assoc, List.append_assoc] at h
  rcases stands_append h with ⟨p, rfl, hp⟩ | ⟨r, hne, hspaces, hr⟩
  · rcases stands_append hp with ⟨q, rfl, hq⟩ | ⟨r, hne, rfl, hr⟩
    · cases q with
      | nil =>
        rw [List.nil_append, List.singleton_append, List.cons_prefix_cons] at hq
        exact absurd hq.1 (by decide)
      | cons c q =>
        rw [List.singleton_append, List.cons_append, List.cons_prefix_cons] at hq
        obtain ⟨rfl, hbehind⟩ := hq
        exact .inr (.inr ⟨q, by simp [headLine_eq], hbehind⟩)
    · obtain ⟨c, r, rfl⟩ := List.exists_cons_of_ne_nil hne
      rw [List.cons_append, List.cons_prefix_cons] at hr
      obtain ⟨rfl, hr⟩ := hr
      by_cases hempty : p = []
      · subst hempty
        exact .inl ⟨by simp, List.cons_prefix_cons.2 ⟨rfl, hr⟩⟩
      · obtain ⟨hend, _⟩ := hu.inner rfl hempty
        rw [← hend]
        exact .inr (.inl (List.cons_prefix_cons.2 ⟨rfl, hr⟩))
  · obtain ⟨c, r, rfl⟩ := List.exists_cons_of_ne_nil hne
    rw [List.cons_append, List.cons_prefix_cons] at hr
    have hmem : c ∈ List.replicate 4 ' ' := by
      rw [hspaces]
      simp
    rw [List.eq_of_mem_replicate hmem] at hr
    exact absurd hr.1 (by decide)

theorem not_front_scriptEnd (ht : AssetTag t) : ¬ t <+: scriptEnd ++ y := by
  obtain ⟨c, tail, rfl, hc⟩ := ht.head
  rw [scriptEnd_eq]
  intro h
  rw [List.cons_append, List.cons_prefix_cons, List.cons_append, List.cons_prefix_cons] at h
  exact hc h.2.1

/-- In added lines a tag stands on its own line only. -/
theorem stands_headLines (ht : AssetTag t) (hus : ∀ u ∈ us, AssetTag u) (h : pre ++ t <+: headLines us ++ y) :
    (∃ us₁ us₂, us = us₁ ++ t :: us₂ ∧ pre = headLines us₁ ++ List.replicate 4 ' ') ∨
      ∃ q, pre = headLines us ++ q ∧ q ++ t <+: y := by
  induction us generalizing pre with
  | nil => exact .inr ⟨pre, rfl, h⟩
  | cons u us ih =>
    have hu : AssetTag u := hus u List.mem_cons_self
    obtain ⟨c, tail, htail, _⟩ := ht.head
    rw [headLines_cons, List.append_assoc] at h
    rw [htail] at h
    rcases stands_headLine hu h with ⟨rfl, hfront⟩ | hfront | ⟨q, rfl, hq⟩
    · rw [← htail] at hfront
      have heq := ht.eq_of_front hu hfront
      subst heq
      exact .inl ⟨[], us, rfl, rfl⟩
    · rw [← htail] at hfront
      exact absurd hfront (not_front_scriptEnd ht)
    · rw [← htail] at hq
      rcases ih (fun u hu => hus u (List.mem_cons_of_mem _ hu)) hq with ⟨us₁, us₂, rfl, rfl⟩ | ⟨q', rfl, hq'⟩
      · exact .inl ⟨u :: us₁, us₂, rfl, by rw [headLines_cons, List.append_assoc]⟩
      · exact .inr ⟨q', by rw [headLines_cons, List.append_assoc], hq'⟩

/-- No tag begins before the added lines, or before the end of the head, and ends in them. -/
theorem not_straddles (ht : AssetTag t) (hus : ∀ u ∈ us, AssetTag u) {a b : Text} (hab : t = a ++ b)
    (ha : a ≠ []) (hb : b ≠ []) : ¬ b <+: headLines us ++ (closeHead ++ rest) := by
  intro h
  obtain ⟨front, hlast⟩ := ht.last
  cases us with
  | nil =>
    obtain ⟨c, b, rfl⟩ := List.exists_cons_of_ne_nil hb
    have hclose : headLines [] ++ (closeHead ++ rest) = '<' :: '/' :: 'h' :: ("ead>".toList ++ rest) := by
      rw [closeHead_eq]
      rfl
    rw [hclose, List.cons_prefix_cons] at h
    obtain ⟨rfl, h⟩ := h
    obtain ⟨hend, _⟩ := ht.inner hab ha
    rw [scriptEnd_eq, List.cons.injEq] at hend
    rw [hend.2, List.cons_prefix_cons, List.cons_prefix_cons] at h
    exact absurd h.2.1 (by decide)
  | cons u us =>
    obtain ⟨c, tail, htail, _⟩ := (hus u List.mem_cons_self).head
    have hlines : headLines (u :: us) ++ (closeHead ++ rest) =
        List.replicate 4 ' ' ++ '<' :: (c :: tail ++ ['\n'] ++ headLines us ++ (closeHead ++ rest)) := by
      rw [headLines_cons, headLine_eq, htail]
      simp
    rw [hlines] at h
    rcases front_append h with hspaces | ⟨b', hne, rfl, h'⟩
    · -- The last character of a tag is no space.
      obtain ⟨b', c', rfl⟩ := List.eq_nil_or_concat b |>.resolve_left hb
      rw [List.concat_eq_append, ← List.append_assoc] at hab
      rw [hab] at hlast
      have hc' : c' = '>' := (List.append_inj' hlast rfl).2 |> List.singleton_inj.1
      have hmem : c' ∈ List.replicate 4 ' ' := hspaces.subset (by simp)
      rw [hc'] at hmem
      exact absurd (List.eq_of_mem_replicate hmem) (by decide)
    · -- Behind its first character no opening bracket of a tag follows a space.
      obtain ⟨c', b', rfl⟩ := List.exists_cons_of_ne_nil hne
      rw [List.cons_prefix_cons] at h'
      obtain ⟨rfl, _⟩ := h'
      rw [← List.append_assoc] at hab
      obtain ⟨_, front, hfront⟩ := ht.inner hab (by simp [ha])
      have hspace : a ++ List.replicate 4 ' ' = (a ++ List.replicate 3 ' ') ++ [' '] := by
        simp [List.replicate]
      rw [hspace] at hfront
      have hc := List.singleton_inj.1 (List.append_inj' hfront rfl).2
      exact absurd hc (by decide)

/-- A tag stands in a document with added lines where it stands before them, on its own line among them, or
behind them. -/
theorem stands_iff (ht : AssetTag t) (hus : ∀ u ∈ us, AssetTag u) :
    pre ++ t <+: before ++ (headLines us ++ (closeHead ++ rest)) ↔
      pre ++ t <+: before ∨
        (∃ us₁ us₂, us = us₁ ++ t :: us₂ ∧ pre = before ++ (headLines us₁ ++ List.replicate 4 ' ')) ∨
        ∃ q, pre = before ++ (headLines us ++ q) ∧ q ++ t <+: closeHead ++ rest := by
  constructor
  · intro h
    rcases stands_append h with ⟨p, rfl, hp⟩ | ⟨r, hne, rfl, hr⟩
    · rcases stands_headLines ht hus hp with ⟨us₁, us₂, hsplit, rfl⟩ | ⟨q, rfl, hbehind⟩
      · exact .inr (.inl ⟨us₁, us₂, hsplit, rfl⟩)
      · exact .inr (.inr ⟨q, rfl, hbehind⟩)
    · rcases front_append hr with hin | ⟨b, hb, hab, hcross⟩
      · exact .inl ((List.prefix_append_right_inj pre).2 hin)
      · exact absurd hcross (not_straddles ht hus hab hne hb)
  · rintro (h | ⟨us₁, us₂, rfl, rfl⟩ | ⟨q, rfl, hq⟩)
    · exact h.trans (List.prefix_append _ _)
    · refine ⟨'\n' :: (headLines us₂ ++ (closeHead ++ rest)), ?_⟩
      simp [headLines, headLine_eq]
    · simp only [List.append_assoc]
      exact (List.prefix_append_right_inj _).2 ((List.prefix_append_right_inj _).2 hq)

theorem stands_head_iff (ht : AssetTag t) :
    pre ++ t <+: before ++ (closeHead ++ rest) ↔
      pre ++ t <+: before ∨ ∃ q, pre = before ++ q ∧ q ++ t <+: closeHead ++ rest := by
  have hnone : ∀ u ∈ ([] : List Text), AssetTag u := fun u hu => absurd hu List.not_mem_nil
  have h : pre ++ t <+: before ++ (headLines [] ++ (closeHead ++ rest)) ↔ _ := stands_iff ht hnone
  simpa [headLines] using h

theorem contains_headLines (ht : AssetTag t) (hus : ∀ u ∈ us, AssetTag u) :
    contains t (before ++ (headLines us ++ (closeHead ++ rest))) = true ↔
      contains t (before ++ (closeHead ++ rest)) = true ∨ t ∈ us := by
  rw [contains_iff, contains_iff]
  constructor
  · rintro ⟨pre, h⟩
    rcases (stands_iff ht hus).1 h with h | ⟨us₁, us₂, rfl, _⟩ | ⟨q, _, hq⟩
    · exact .inl ⟨pre, (stands_head_iff ht).2 (.inl h)⟩
    · exact .inr (by simp)
    · exact .inl ⟨before ++ q, (stands_head_iff ht).2 (.inr ⟨q, rfl, hq⟩)⟩
  · rintro (⟨pre, h⟩ | hmem)
    · rcases (stands_head_iff ht).1 h with h | ⟨q, rfl, hq⟩
      · exact ⟨pre, (stands_iff ht hus).2 (.inl h)⟩
      · exact ⟨_, (stands_iff ht hus).2 (.inr (.inr ⟨q, rfl, hq⟩))⟩
    · obtain ⟨us₁, us₂, hsplit⟩ := List.append_of_mem hmem
      exact ⟨_, (stands_iff ht hus).2 (.inr (.inl ⟨us₁, us₂, hsplit, rfl⟩))⟩

/-- A tag that a document does not hold stands in it once when it has been added once. -/
theorem stands_once (hus : ∀ u ∈ us, AssetTag u) (hnodup : us.Nodup) (hmem : t ∈ us)
    (hnot : contains t (before ++ (closeHead ++ rest)) = false) :
    ∃! pre, pre ++ t <+: before ++ (headLines us ++ (closeHead ++ rest)) := by
  have ht : AssetTag t := hus t hmem
  have hnowhere : ∀ pre, ¬ pre ++ t <+: before ++ (closeHead ++ rest) := by
    intro pre h
    rw [contains_iff.2 ⟨pre, h⟩] at hnot
    cases hnot
  obtain ⟨us₁, us₂, hsplit⟩ := List.append_of_mem hmem
  refine ⟨before ++ (headLines us₁ ++ List.replicate 4 ' '), ?_, fun pre h => ?_⟩
  · exact (stands_iff ht hus).2 (.inr (.inl ⟨us₁, us₂, hsplit, rfl⟩))
  · rcases (stands_iff ht hus).1 h with h | ⟨vs₁, vs₂, hsplit', rfl⟩ | ⟨q, _, hq⟩
    · exact absurd ((stands_head_iff ht).2 (.inl h)) (hnowhere pre)
    · rw [hsplit] at hsplit' hnodup
      have hfresh : t ∉ us₁ ∧ t ∉ us₂ := by
        have hcons := List.nodup_middle.1 hnodup
        simpa using (List.nodup_cons.1 hcons).1
      obtain ⟨rfl, -, -⟩ := (List.append_cons_inj_of_notMem hfresh.1 hfresh.2).1 hsplit'
      rfl
    · exact absurd ((stands_head_iff ht).2 (.inr ⟨q, rfl, hq⟩)) (hnowhere _)

/-! ## Adding -/

/-- The end of a head does not stand in the lines of tags. -/
theorem closeHead_headLines (hus : ∀ u ∈ us, AssetTag u) (h : pre ++ closeHead <+: headLines us ++ y) :
    ∃ q, pre = headLines us ++ q ∧ q ++ closeHead <+: y := by
  induction us generalizing pre with
  | nil => exact ⟨pre, rfl, h⟩
  | cons u us ih =>
    have hu : AssetTag u := hus u List.mem_cons_self
    obtain ⟨c, tail, htail, hc⟩ := hu.head
    rw [headLines_cons, List.append_assoc, closeHead_eq] at h
    rcases stands_headLine hu h with ⟨_, hfront⟩ | hfront | ⟨q, rfl, hq⟩
    · rw [htail, List.cons_append, List.cons_prefix_cons, List.cons_append, List.cons_prefix_cons] at hfront
      exact absurd hfront.2.1.symm hc
    · rw [scriptEnd_eq, List.cons_append, List.cons_prefix_cons, List.cons_append, List.cons_prefix_cons,
        List.cons_append, List.cons_prefix_cons] at hfront
      exact absurd hfront.2.2.1 (by decide)
    · rw [← closeHead_eq] at hq
      obtain ⟨q', rfl, hq'⟩ := ih (fun u hu => hus u (List.mem_cons_of_mem _ hu)) hq
      exact ⟨q', by rw [headLines_cons, List.append_assoc], hq'⟩

/-- With lines of tags before it the end of the head stays the first one. -/
theorem cutAt?_headLines (hus : ∀ u ∈ us, AssetTag u)
    (hcut : cutAt? closeHead (before ++ (closeHead ++ rest)) = some (before, rest)) :
    cutAt? closeHead (before ++ (headLines us ++ (closeHead ++ rest))) =
      some (before ++ headLines us, rest) := by
  obtain ⟨_, hfirst⟩ := cutAt?_eq_some_iff.1 hcut
  refine cutAt?_eq_some_iff.2 ⟨by simp, fun pre hpre => ?_⟩
  rcases stands_append hpre with ⟨p, rfl, hp⟩ | ⟨r, hne, rfl, hr⟩
  · obtain ⟨q, rfl, _⟩ := closeHead_headLines hus hp
    simp only [List.length_append]
    omega
  · exfalso
    have hstands : pre ++ closeHead <+: pre ++ r ++ (closeHead ++ rest) := by
      rw [List.append_assoc, List.prefix_append_right_inj]
      rcases front_append hr with hin | ⟨b, hb, hab, hcross⟩
      · exact hin.trans (List.prefix_append _ _)
      · cases us with
        | nil => exact hr
        | cons u us =>
          obtain ⟨c, b, rfl⟩ := List.exists_cons_of_ne_nil hb
          have hspace : headLines (u :: us) ++ (closeHead ++ rest) =
              ' ' :: (List.replicate 3 ' ' ++ u ++ ['\n'] ++ headLines us ++ (closeHead ++ rest)) := by
            simp [headLines_cons, headLine_eq, List.replicate]
          rw [hspace, List.cons_prefix_cons] at hcross
          have hmem : ' ' ∈ closeHead := by
            rw [hab, hcross.1]
            simp
          exact absurd hmem (by decide)
    have hlen := hfirst pre hstands
    have hpos := List.length_pos_iff.2 hne
    rw [List.length_append] at hlen
    omega

theorem appendToHead_headLines (hus : ∀ u ∈ us, AssetTag u) (ht : AssetTag t) (hnew : t ∉ us)
    (hcut : cutAt? closeHead (before ++ (closeHead ++ rest)) = some (before, rest)) :
    appendToHead (before ++ (headLines us ++ (closeHead ++ rest))) t =
      before ++ (headLines (if contains t (before ++ (closeHead ++ rest)) then us else us ++ [t]) ++
        (closeHead ++ rest)) := by
  have hcontains : contains t (before ++ (headLines us ++ (closeHead ++ rest))) = true ↔ _ :=
    contains_headLines ht hus
  unfold appendToHead
  by_cases hin : contains t (before ++ (closeHead ++ rest)) = true
  · rw [if_pos (hcontains.2 (.inl hin)), if_pos hin]
  · rw [if_neg fun hc => (hcontains.1 hc).elim hin hnew, if_neg hin, cutAt?_headLines hus hcut]
    simp [headLines]

/-- Tags that are added one after the other make one block before the end of the head: the lines of those
that the document does not hold, in their order. -/
theorem foldl_appendToHead {s : Text} (hcut : cutAt? closeHead s = some (before, rest))
    (htags : ∀ t ∈ tags, AssetTag t) (hnodup : tags.Nodup) :
    tags.foldl appendToHead s =
      before ++ (headLines (tags.filter fun t => !contains t s) ++ (closeHead ++ rest)) := by
  have hs : s = before ++ (closeHead ++ rest) := by
    rw [Text.eq_of_cutAt? hcut, List.append_assoc]
  subst hs
  -- The tags of the first list have been worked off; those of them that were missing are in the second.
  have hloop : ∀ tags us : List Text, (∀ t ∈ us ++ tags, AssetTag t) → (us ++ tags).Nodup →
      tags.foldl appendToHead (before ++ (headLines us ++ (closeHead ++ rest))) =
        before ++ (headLines (us ++ tags.filter fun t => !contains t (before ++ (closeHead ++ rest))) ++
          (closeHead ++ rest)) := by
    intro tags
    induction tags with
    | nil => exact fun us _ _ => by simp
    | cons t tags ih =>
      intro us hall hdistinct
      have ht : AssetTag t := hall t (by simp)
      have hus : ∀ u ∈ us, AssetTag u := fun u hu => hall u (List.mem_append_left _ hu)
      have hmiddle := List.nodup_cons.1 (List.nodup_middle.1 hdistinct)
      have hnew : t ∉ us := fun hc => hmiddle.1 (List.mem_append_left _ hc)
      rw [List.foldl_cons, appendToHead_headLines hus ht hnew hcut]
      by_cases hin : contains t (before ++ (closeHead ++ rest)) = true
      · rw [if_pos hin, ih us (fun u hu => hall u ?_) hmiddle.2]
        · simp [hin]
        · rcases List.mem_append.1 hu with hu | hu
          · exact List.mem_append_left _ hu
          · exact List.mem_append_right _ (List.mem_cons_of_mem _ hu)
      · have hassoc : us ++ t :: tags = us ++ [t] ++ tags := by simp
        rw [hassoc] at hall hdistinct
        rw [if_neg hin, ih (us ++ [t]) hall hdistinct]
        simp [hin]
  have hstart := hloop tags [] htags hnodup
  simpa [headLines] using hstart

theorem foldl_appendToHead_of_none {s : Text} (hcut : cutAt? closeHead s = none) :
    tags.foldl appendToHead s = s := by
  induction tags with
  | nil => rfl
  | cons t tags ih =>
    have hkept : appendToHead s t = s := by
      unfold appendToHead
      rw [hcut]
      split <;> rfl
    rw [List.foldl_cons, hkept, ih]

end Sitewright.Html
