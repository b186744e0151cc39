import Sitewright.Build.Script
import Sitewright.Proofs.Agreement
/-!
# Collecting components

A walk that collects the components of a page marks every token that it meets, and goes deeper only at a token
that was not marked before. It has marked all tokens that the page reaches before it can go deeper than there
are such tokens, so a bound on its depth that is greater plays no part.

* `Walking`: what holds of the tokens marked and of the components found.

Main statements: `collect_agree`, and `entryScript_agree` for the script that is made of what is collected.
-/
set_option autoImplicit false

namespace Sitewright.Component

open Reading (outcome textIn)

variable {site : Site} {d d' : Disk} {page : Text} {reached : Finset Text} {depth depth' k : Nat}

/-! ## Steps of a walk -/

/-- What is done with a token that has just been marked. -/
def visit (site : Site) (depth : Nat) (token : Text) : StateT Walked Reading Unit := do
  match ← (load site token : Reading _) with
  | none => return ()
  | some c =>
    modify fun w => { w with found := w.found ++ [c] }
    match ← (markupText c : Reading _) with
    | none => return ()
    | some markup => follow site depth markup

def meet (site : Site) (depth : Nat) (token : Text) : StateT Walked Reading Unit := do
  if List.elem token (← get).seen then return ()
  modify fun w => { w with seen := token :: w.seen }
  visit site depth token

theorem follow_succ (depth : Nat) (s : Text) :
    follow site (depth + 1) s = (tokens site s).forM (meet site depth) := rfl

theorem runOn_meet (token : Text) (w : Walked) (l : Log) :
    runOn (meet site depth token) w d l =
      if token ∈ w.seen then (.ok ((), w), l)
      else runOn (visit site depth token) { w with seen := token :: w.seen } d l := by
  unfold meet
  rw [runOn_bind, runOn_get]
  simp only
  by_cases hmem : token ∈ w.seen
  · rw [if_pos hmem, if_pos (List.elem_iff.2 hmem)]
    rfl
  · rw [if_neg hmem, if_neg fun helem => hmem (List.elem_iff.1 helem)]
    rfl

theorem runOn_visit (token : Text) (w : Walked) (l : Log) :
    runOn (visit site depth token) w d l =
      match found site d token with
      | .error e => (.error e, l)
      | .ok none => (.ok ((), w), l)
      | .ok (some c) =>
        match textIn d c.markup with
        | .error e => (.error e, l)
        | .ok m => runOn (follow site depth m) { w with found := w.found ++ [c] } d l := by
  unfold visit
  rw [runOn_bind, runOn_lift, outcome_load]
  rcases hc : found site d token with e | _ | c
  · rfl
  · rfl
  · simp only
    rw [runOn_bind, runOn_modify]
    simp only
    rw [runOn_bind, runOn_lift, outcome_markupText hc]
    cases textIn d c.markup <;> rfl

/-! ## Rows of steps -/

theorem Ensures.forM {α σ : Type} {I : σ → Prop} {fails : Failure → Prop} {f : α → StateT σ Reading PUnit}
    {xs : List α} (h : ∀ x ∈ xs, Ensures d I (f x) (fun _ => True) fails) :
    Ensures d I (xs.forM f) (fun _ => True) fails := by
  induction xs with
  | nil => exact Ensures.pure trivial
  | cons x xs ih =>
    have hrest := ih fun y hy => h y (List.mem_cons_of_mem x hy)
    exact (h x List.mem_cons_self).bind fun _ _ => hrest

theorem Same.forM {α σ : Type} {I : σ → Prop} {f f' : α → StateT σ Reading PUnit} {xs : List α}
    (hsame : ∀ x ∈ xs, Same d d' I (f x) (f' x))
    (hm : ∀ x ∈ xs, Ensures d I (f x) (fun _ => True) (fun _ => True)) :
    Same d d' I (xs.forM f) (xs.forM f') := by
  induction xs with
  | nil => exact fun i l _ => rfl
  | cons x xs ih =>
    have hrest := ih (fun y hy => hsame y (List.mem_cons_of_mem x hy)) fun y hy => hm y (List.mem_cons_of_mem x hy)
    exact (hsame x List.mem_cons_self).bind (hm x List.mem_cons_self) fun _ _ => hrest

/-! ## Marks -/

/-- At least `k` tokens have been marked, all of them reached, and the components found are those of the disk. -/
structure Walking (site : Site) (d : Disk) (reached : Finset Text) (k : Nat) (w : Walked) : Prop where
  nodup : w.seen.Nodup
  reached : ∀ t ∈ w.seen, t ∈ reached
  marked : k ≤ w.seen.length
  found : ∀ c ∈ w.found, c.token ∈ w.seen ∧ found site d c.token = .ok (some c)

theorem Walking.le_card {w : Walked} (h : Walking site d reached k w) : k ≤ reached.card := by
  have hcard : w.seen.toFinset.card ≤ reached.card :=
    Finset.card_le_card fun t ht => h.reached t (List.mem_toFinset.1 ht)
  rw [List.toFinset_card_of_nodup h.nodup] at hcard
  exact h.marked.trans hcard

theorem Walking.mark {w : Walked} (h : Walking site d reached k w) {t : Text} (ht : t ∈ reached)
    (hnew : t ∉ w.seen) : Walking site d reached (k + 1) { w with seen := t :: w.seen } := by
  refine ⟨List.nodup_cons.2 ⟨hnew, h.nodup⟩, fun u hu => ?_, ?_, fun c hc => ?_⟩
  · rcases List.mem_cons.1 hu with rfl | hu
    · exact ht
    · exact h.reached u hu
  · rw [List.length_cons]
    exact Nat.succ_le_succ h.marked
  · exact ⟨List.mem_cons_of_mem t (h.found c hc).1, (h.found c hc).2⟩

theorem Walking.add {w : Walked} (h : Walking site d reached k w) {c : Component} (ht : c.token ∈ w.seen)
    (hc : Component.found site d c.token = .ok (some c)) :
    Walking site d reached k { w with found := w.found ++ [c] } := by
  refine ⟨h.nodup, h.reached, h.marked, fun c' hc' => ?_⟩
  rcases List.mem_append.1 hc' with hc' | hc'
  · exact h.found c' hc'
  · rw [List.mem_singleton.1 hc']
    exact ⟨ht, hc⟩

theorem Walking.fewer {w : Walked} (h : Walking site d reached (k + 1) w) : Walking site d reached k w :=
  ⟨h.nodup, h.reached, (Nat.le_succ k).trans h.marked, h.found⟩

/-- Tokens that are closed under references, as far as a disk goes. -/
def ClosedUnder (site : Site) (d : Disk) (reached : Finset Text) : Prop :=
  ∀ t ∈ reached, ∀ u, Refers site d t u → u ∈ reached

theorem ClosedUnder.of_markup (h : ClosedUnder site d reached) {t m : Text} {c : Component} (ht : t ∈ reached)
    (hc : found site d t = .ok (some c)) (hm : textIn d c.markup = .ok m) : ∀ u ∈ tokens site m, u ∈ reached := by
  intro u hu
  refine h t ht u ⟨m, ?_, hu⟩
  rw [markupIn, hc]
  simp only [hm]
  rfl

theorem Ensures.meet (hclosed : ClosedUnder site d reached) {token : Text} (ht : token ∈ reached)
    (hfollow : ∀ m, (∀ u ∈ tokens site m, u ∈ reached) → Ensures d (Walking site d reached (k + 1))
      (Component.follow site depth m) (fun _ => True) (fun _ => True)) :
    Ensures d (Walking site d reached k) (Component.meet site depth token) (fun _ => True) (fun _ => True) := by
  intro w l hw
  rw [runOn_meet]
  by_cases hmem : token ∈ w.seen
  · rw [if_pos hmem]
    exact ⟨hw, trivial⟩
  · rw [if_neg hmem, runOn_visit]
    rcases hc : Component.found site d token with e | _ | c
    · trivial
    · exact ⟨(hw.mark ht hmem).fewer, trivial⟩
    · simp only
      cases hm : textIn d c.markup with
      | error e => trivial
      | ok m =>
        simp only
        have htoken := (of_found hc).1
        have hstart := (hw.mark ht hmem).add (htoken ▸ List.mem_cons_self) (htoken ▸ hc)
        have hend := hfollow m (hclosed.of_markup ht hc hm) _ l hstart
        rcases hrun : runOn (Component.follow site depth m)
          ⟨token :: w.seen, w.found ++ [c]⟩ d l with ⟨_ | ⟨u, w'⟩, l'⟩
        · trivial
        · rw [hrun] at hend
          exact ⟨hend.1.fewer, trivial⟩

theorem Ensures.follow (hclosed : ClosedUnder site d reached) (depth : Nat) {s : Text}
    (hs : ∀ t ∈ tokens site s, t ∈ reached) :
    Ensures d (Walking site d reached k) (Component.follow site depth s) (fun _ => True) (fun _ => True) := by
  induction depth generalizing s k with
  | zero => exact Ensures.pure trivial
  | succ depth ih =>
    rw [follow_succ]
    exact Ensures.forM fun token htoken => Ensures.meet hclosed (hs token htoken) fun m hm => ih hm

/-- Two walks agree where the disks agree on the tokens reached, and where both bounds on depth exceed the
number of those that are not yet marked. -/
theorem Same.follow (hclosed : ClosedUnder site d reached) (hagree : ∀ t ∈ reached, Agree site d d' t)
    {s : Text} (hs : ∀ t ∈ tokens site s, t ∈ reached) (hdepth : reached.card < depth + k)
    (hdepth' : reached.card < depth' + k) :
    Same d d' (Walking site d reached k) (Component.follow site depth s) (Component.follow site depth' s) := by
  induction depth generalizing depth' s k with
  | zero =>
    intro w l hw
    have := hw.le_card
    omega
  | succ depth ih =>
    cases depth' with
    | zero =>
      intro w l hw
      have := hw.le_card
      omega
    | succ depth' =>
      rw [follow_succ, follow_succ]
      have hensures : ∀ token ∈ tokens site s, Ensures d (Walking site d reached k) (Component.meet site depth token)
          (fun _ => True) (fun _ => True) := fun token htoken =>
        Ensures.meet hclosed (hs token htoken) fun m hm => Ensures.follow hclosed depth hm
      refine Same.forM (fun token htoken w l hw => ?_) hensures
      have ht := hs token htoken
      rw [runOn_meet, runOn_meet]
      by_cases hmem : token ∈ w.seen
      · rw [if_pos hmem, if_pos hmem]
      · rw [if_neg hmem, if_neg hmem, runOn_visit, runOn_visit, (hagree token ht).1]
        rcases hc : Component.found site d token with e | _ | c
        · rfl
        · rfl
        · simp only [(hagree token ht).2 c hc]
          cases hm : textIn d c.markup with
          | error e => rfl
          | ok m =>
            have htoken := (of_found hc).1
            have hstart := (hw.mark ht hmem).add (htoken ▸ List.mem_cons_self) (htoken ▸ hc)
            exact ih (hclosed.of_markup ht hc hm) (by omega) (by omega) _ l hstart

/-! ## Collections -/

theorem outcome_collect (l : Log) : outcome (collect site page) d l =
    match runOn (Component.follow site (boundOn d page) page) ⟨[], []⟩ d l with
    | (.ok (_, w), l') => (.ok w.found, l')
    | (.error e, l') => (.error e, l') := by
  unfold collect runOn
  rw [Reading.outcome_bind, outcome_nestingBound]
  simp only
  rw [Reading.outcome_bind]
  rcases outcome ((Component.follow site (boundOn d page) page).run ⟨[], []⟩) d l with ⟨_ | ⟨u, w⟩, l'⟩ <;> rfl

theorem walking_empty (site : Site) (d : Disk) (reached : Finset Text) : Walking site d reached 0 ⟨[], []⟩ :=
  ⟨List.nodup_nil, fun _ h => absurd h List.not_mem_nil, Nat.zero_le _, fun _ h => absurd h List.not_mem_nil⟩

theorem closedUnder_reached (hreached : ∀ t, t ∈ reached ↔ Reaches site d page t) : ClosedUnder site d reached := by
  intro t ht u hu
  exact (hreached u).2 (((hreached t).1 ht).tail hu)

theorem found_of_collect {l l' : Log} {cs : List Component} (h : outcome (collect site page) d l = (.ok cs, l')) :
    ∀ c ∈ cs, Reaches site d page c.token ∧ found site d c.token = .ok (some c) := by
  obtain ⟨reached, hreached, _⟩ := exists_reached_lt_nestingBound site d page
  have hend := Ensures.follow (closedUnder_reached hreached) (boundOn d page)
    (fun t ht => (hreached t).2 (reaches_of_mem ht)) _ l (walking_empty site d reached)
  rw [outcome_collect] at h
  rcases hrun : runOn (Component.follow site (boundOn d page) page) ⟨[], []⟩ d l with ⟨_ | ⟨u, w⟩, l''⟩
  · rw [hrun] at h
    cases h
  · rw [hrun] at h hend
    cases h
    exact fun c hc => ⟨(hreached _).1 (hend.1.reached _ (hend.1.found c hc).1), (hend.1.found c hc).2⟩

/-- What is collected is decided by the components that are reached. -/
theorem collect_agree (hagree : ∀ t, Reaches site d page t → Agree site d d' t) (l : Log) :
    outcome (collect site page) d' l = outcome (collect site page) d l := by
  obtain ⟨reached, hreached, hbound, hbound'⟩ := exists_reached_lt_bounds hagree
  have hsame : Same d d' (Walking site d reached 0) (Component.follow site (boundOn d page) page)
      (Component.follow site (boundOn d' page) page) :=
    Same.follow (closedUnder_reached hreached) (fun t ht => hagree t ((hreached t).1 ht))
      (fun t ht => (hreached t).2 (reaches_of_mem ht)) (by omega) (by omega)
  rw [outcome_collect, outcome_collect, hsame _ l (walking_empty site d reached)]

/-! ## Notices -/

/-- A walk notes nothing, and what has been noted makes no difference to it. -/
theorem runOn_follow_log (depth : Nat) (s : Text) (w : Walked) (l : Log) :
    runOn (follow site depth s) w d l = ((runOn (follow site depth s) w d []).1, l) := by
  induction depth generalizing s w l with
  | zero => rfl
  | succ depth ih =>
    rw [follow_succ]
    generalize tokens site s = ts
    induction ts generalizing w l with
    | nil => rfl
    | cons t ts ihts =>
      have hmeet : ∀ l, runOn (meet site depth t) w d l = ((runOn (meet site depth t) w d []).1, l) := by
        intro l
        rw [runOn_meet, runOn_meet, runOn_visit, runOn_visit]
        split
        · rfl
        · rcases found site d t with e | _ | c
          · rfl
          · rfl
          · simp only
            cases textIn d c.markup with
            | error e => rfl
            | ok m => exact ih m _ l
      have hstart : runOn (meet site depth t) w d [] = ((runOn (meet site depth t) w d []).1, []) := hmeet []
      have hcons : (t :: ts).forM (meet site depth) =
          meet site depth t >>= fun _ => ts.forM (meet site depth) := rfl
      rw [hcons, runOn_bind, runOn_bind, hmeet l, hstart]
      rcases (runOn (meet site depth t) w d []).1 with _ | ⟨u, w'⟩
      · rfl
      · exact ihts w' l

theorem silent_collect (site : Site) (page : Text) (d : Disk) : Reading.Silent d (collect site page) := by
  intro l
  rw [outcome_collect, outcome_collect, runOn_follow_log _ _ _ l]
  rcases runOn (follow site (boundOn d page) page) ⟨[], []⟩ d [] with ⟨_ | ⟨u, w⟩, l'⟩ <;> rfl

end Sitewright.Component

namespace Sitewright.Build

open Component (Reaches Agree)
open Reading (outcome textIn)

variable {site : Site} {d d' : Disk} {fragment : Text}

/-- An entry script is decided by the components that are reached and by their scripts. -/
theorem entryScript_agree (hagree : ∀ t, Reaches site d fragment t → Agree site d d' t)
    (hscript : ∀ t, Reaches site d fragment t → ∀ c, Component.found site d t = .ok (some c) →
      ∀ path ∈ c.script, textIn d' path = textIn d path)
    (l : Log) : outcome (entryScript site fragment) d' l = outcome (entryScript site fragment) d l := by
  unfold entryScript
  refine Reading.outcome_bind_congr (Component.collect_agree hagree) (fun cs hcs l => ?_) l
  obtain ⟨l₁, l₂, hcs⟩ := hcs
  have hparts : ∀ l, outcome (cs.mapM scriptPart) d' l = outcome (cs.mapM scriptPart) d l := by
    refine fun l => Reading.outcome_mapM_congr (fun c hc l => ?_) l
    unfold scriptPart
    cases hpath : c.script with
    | none => rfl
    | some path =>
      obtain ⟨hreached, hfound⟩ := Component.found_of_collect hcs c hc
      have htext : ∀ l, outcome (Reading.textOf path) d' l = outcome (Reading.textOf path) d l := by
        intro l
        rw [Reading.outcome_textOf, Reading.outcome_textOf, hscript c.token hreached c hfound path hpath]
      refine Reading.outcome_bind_congr htext ?_ l
      exact fun _ _ _ => rfl
  refine Reading.outcome_bind_congr hparts ?_ l
  exact fun _ _ _ => rfl

theorem silent_entryScript (site : Site) (fragment : Text) (d : Disk) :
    Reading.Silent d (entryScript site fragment) := by
  refine (Component.silent_collect site fragment d).bind fun cs => ?_
  refine (Reading.Silent.mapM fun c _ => ?_).bind fun _ _ => rfl
  unfold scriptPart
  cases c.script with
  | none => exact fun _ => rfl
  | some path => exact (Reading.silent_textOf path d).bind fun _ _ => rfl

end Sitewright.Build
