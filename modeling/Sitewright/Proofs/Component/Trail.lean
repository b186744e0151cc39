import Sitewright.Proofs.Component.Collection
/-!
# The order in which components are met

From a page every path of references through distinct tokens can be followed, the references of a text from left
to right and those of a markup before what stands behind it. This meets a component once for each path that leads
to it, and ends on any finite disk, cyclic or not. A collection follows fewer paths, since it never goes twice
through one token; an injection follows all of them, and stops at a cycle.

* `Trail`: the components met on all paths of distinct tokens, in order.
* `Swept`: what a collection has done when it comes to a text under a stack of tokens.

Main statements: a collection gives the components that are reached, each where it is met first
(`Trail.sweep`), and where there is no cycle an injection uses the same ones in the same order
(`collect_agrees_with_inject`).
-/
set_option autoImplicit false

namespace Sitewright.Component

open Reading (outcome textIn)

variable {site : Site} {d : Disk} {tree : Variables} {page : Text} {reached : Finset Text}

/-! ## Paths of distinct tokens -/

/-- The components met from some tokens under a stack: a token that stands on the stack is not followed, one
without a component gives nothing, and any other one comes before what its markup leads to. -/
inductive Trail (site : Site) (d : Disk) : List Text → List Text → List Text → Prop
  | nil (stack : List Text) : Trail site d stack [] []
  | again {stack ts trail : List Text} {t : Text} (hstack : t ∈ stack) (rest : Trail site d stack ts trail) :
      Trail site d stack (t :: ts) trail
  | missing {stack ts trail : List Text} {t : Text} (hnew : t ∉ stack) (hmissing : markupIn site d t = .ok none)
      (rest : Trail site d stack ts trail) : Trail site d stack (t :: ts) trail
  | component {stack ts inner trail : List Text} {t m : Text} (hnew : t ∉ stack)
      (hmarkup : markupIn site d t = .ok (some m)) (nested : Trail site d (stack ++ [t]) (tokens site m) inner)
      (rest : Trail site d stack ts trail) : Trail site d stack (t :: ts) (t :: (inner ++ trail))

/-- What is met lies in every collection of tokens that is closed under the references of the tokens that are
not on the stack. -/
theorem Trail.subset {stack ts trail seen : List Text} (h : Trail site d stack ts trail)
    (hts : ∀ t ∈ ts, t ∈ seen) (hclosed : ∀ t ∈ seen, t ∉ stack → ∀ u, Refers site d t u → u ∈ seen) :
    ∀ t ∈ trail, t ∈ seen ∧ ∃ m, markupIn site d t = .ok (some m) := by
  induction h with
  | nil stack => exact fun t ht => absurd ht List.not_mem_nil
  | again _ _ ih => exact ih (fun t ht => hts t (List.mem_cons_of_mem _ ht)) hclosed
  | missing _ _ _ ih => exact ih (fun t ht => hts t (List.mem_cons_of_mem _ ht)) hclosed
  | @component stack ts inner trail t m hnew hmarkup _ _ ihNested ihRest =>
    have ht : t ∈ seen := hts t List.mem_cons_self
    have hinner := ihNested (fun u hu => hclosed t ht hnew u ⟨m, hmarkup, hu⟩) fun u hu hstack =>
      hclosed u hu fun hc => hstack (List.mem_append_left _ hc)
    have hrest := ihRest (fun u hu => hts u (List.mem_cons_of_mem _ hu)) hclosed
    intro u hu
    rcases List.mem_cons.1 hu with rfl | hu
    · exact ⟨ht, m, hmarkup⟩
    · exact (List.mem_append.1 hu).elim (hinner u) (hrest u)

/-- An expansion uses the components in the order in which they are met: without a cycle nothing that a token
leads to stands on the stack. -/
theorem Replaces.trail {raws texts uses : List Text} (h : Replaces site d tree raws texts uses)
    (hacyclic : ∀ raw ∈ raws, ∀ u, Relation.ReflTransGen (Refers site d) (Text.trim raw) u →
      ¬ Relation.TransGen (Refers site d) u u) {stack : List Text}
    (hstack : ∀ raw ∈ raws, ∀ u, Relation.ReflTransGen (Refers site d) (Text.trim raw) u → u ∉ stack) :
    Trail site d stack (raws.map Text.trim) uses := by
  induction h generalizing stack with
  | nil => exact .nil stack
  | missing hmissing _ ih =>
    refine .missing (hstack _ List.mem_cons_self _ .refl) hmissing (ih ?_ ?_)
    · exact fun raw hraw => hacyclic raw (List.mem_cons_of_mem _ hraw)
    · exact fun raw hraw => hstack raw (List.mem_cons_of_mem _ hraw)
  | @component raw markup rendered inner innerUses raws texts uses hmarkup _ _ _ ihNested ihRest =>
    have hedge : ∀ raw' ∈ references site markup, Refers site d (Text.trim raw) (Text.trim raw') :=
      fun raw' hraw' => ⟨markup, hmarkup, trim_mem_tokens hraw'⟩
    refine .component (hstack _ List.mem_cons_self _ .refl) hmarkup (ihNested ?_ ?_) (ihRest ?_ ?_)
    · exact fun raw' hraw' u hu => hacyclic raw List.mem_cons_self u (.head (hedge raw' hraw') hu)
    · intro raw' hraw' u hu hmem
      rcases List.mem_append.1 hmem with hmem | hmem
      · exact hstack raw List.mem_cons_self u (.head (hedge raw' hraw') hu) hmem
      · rw [List.mem_singleton.1 hmem] at hu
        exact hacyclic raw List.mem_cons_self _ .refl (.head' (hedge raw' hraw') hu)
    · exact fun raw hraw => hacyclic raw (List.mem_cons_of_mem _ hraw)
    · exact fun raw hraw => hstack raw (List.mem_cons_of_mem _ hraw)

theorem Expands.trail {out : Text} {uses : List Text} (h : Expands site d tree page out uses) :
    Trail site d [] (tokens site page) uses := by
  obtain ⟨texts, hreplaces, -⟩ := id h
  refine hreplaces.trail (fun raw hraw u hu hcycle => ?_) fun _ _ _ _ => List.not_mem_nil
  exact h.acyclic ⟨u, ⟨Text.trim raw, trim_mem_tokens hraw, hu⟩, hcycle⟩

/-! ## Tokens used -/

theorem foldl_useToken_of_subset {met uses : List Text} (h : ∀ t ∈ uses, t ∈ met) :
    uses.foldl useToken met = met := by
  induction uses with
  | nil => rfl
  | cons t uses ih =>
    rw [List.foldl_cons, useToken_of_mem (h t List.mem_cons_self)]
    exact ih fun u hu => h u (List.mem_cons_of_mem t hu)

theorem nodup_foldl_useToken {met : List Text} (h : met.Nodup) (uses : List Text) :
    (uses.foldl useToken met).Nodup := by
  induction uses generalizing met with
  | nil => exact h
  | cons t uses ih =>
    rw [List.foldl_cons]
    refine ih ?_
    by_cases ht : t ∈ met
    · rw [useToken_of_mem ht]
      exact h
    · rw [useToken_of_not_mem ht]
      exact List.nodup_append.2 ⟨h, List.nodup_singleton t, fun a ha b hb hab =>
        ht (List.mem_singleton.1 hb ▸ hab ▸ ha)⟩

/-! ## Collections -/

theorem found_of_markupIn {t m : Text} (h : markupIn site d t = .ok (some m)) :
    ∃ c, found site d t = .ok (some c) ∧ textIn d c.markup = .ok m := by
  unfold markupIn at h
  split at h
  · cases h
  · cases h
  · rename_i c hc
    cases htext : textIn d c.markup with
    | error e =>
      rw [htext] at h
      cases h
    | ok s =>
      rw [htext] at h
      cases h
      exact ⟨c, hc, htext⟩

theorem found_of_markupIn_none {t : Text} (h : markupIn site d t = .ok none) : found site d t = .ok none := by
  unfold markupIn at h
  split at h
  · cases h
  · assumption
  · rename_i c hc
    cases htext : textIn d c.markup <;> rw [htext] at h <;> cases h

/-- A collection comes to a text under a stack: it has marked the tokens of the stack, all that the marked ones
refer to but for those that it is still busy with, and it has found the marked components. -/
structure Swept (site : Site) (d : Disk) (reached : Finset Text) (k : Nat) (stack : List Text) (w : Walked) :
    Prop where
  walking : Walking site d reached k w
  busy : ∀ t ∈ stack, t ∈ w.seen
  closed : ∀ t ∈ w.seen, t ∉ stack → ∀ u, Refers site d t u → u ∈ w.seen
  tokens : ∀ t, t ∈ w.found.map (·.token) ↔ t ∈ w.seen ∧ ∃ m, markupIn site d t = .ok (some m)

variable {k : Nat} {stack : List Text} {w : Walked} {t : Text}

theorem Swept.mark_missing (h : Swept site d reached k stack w) (ht : t ∈ reached) (hnew : t ∉ w.seen)
    (hmissing : markupIn site d t = .ok none) :
    Swept site d reached k stack { w with seen := t :: w.seen } := by
  refine ⟨(h.walking.mark ht hnew).fewer, fun u hu => List.mem_cons_of_mem t (h.busy u hu), ?_, fun u => ?_⟩
  · rintro u hu hstack v hrefers
    rcases List.mem_cons.1 hu with rfl | hu
    · obtain ⟨m, hm, _⟩ := hrefers
      rw [hmissing] at hm
      cases hm
    · exact List.mem_cons_of_mem t (h.closed u hu hstack v hrefers)
  · rw [h.tokens u, List.mem_cons]
    constructor
    · exact fun hu => ⟨.inr hu.1, hu.2⟩
    · rintro ⟨rfl | hu, m, hm⟩
      · rw [hmissing] at hm
        cases hm
      · exact ⟨hu, m, hm⟩

/-- A new component goes onto the stack as long as its markup is followed. -/
theorem Swept.enter (h : Swept site d reached k stack w) {c : Component} {m : Text} (ht : t ∈ reached)
    (hnew : t ∉ w.seen) (hc : Component.found site d t = .ok (some c)) (hm : markupIn site d t = .ok (some m)) :
    Swept site d reached (k + 1) (stack ++ [t]) ⟨t :: w.seen, w.found ++ [c]⟩ := by
  have htoken : c.token = t := (of_found hc).1
  refine ⟨(h.walking.mark ht hnew).add (htoken.symm ▸ List.mem_cons_self) (htoken.symm ▸ hc), ?_, ?_, fun u => ?_⟩
  · intro u hu
    rcases List.mem_append.1 hu with hu | hu
    · exact List.mem_cons_of_mem t (h.busy u hu)
    · rw [List.mem_singleton.1 hu]
      exact List.mem_cons_self
  · intro u hu hstack v hrefers
    rw [List.mem_append, not_or, List.mem_singleton] at hstack
    have hold : u ∈ w.seen := (List.mem_cons.1 hu).resolve_left hstack.2
    exact List.mem_cons_of_mem t (h.closed u hold hstack.1 v hrefers)
  · rw [List.map_append, List.map_singleton, htoken, List.mem_append, List.mem_singleton, List.mem_cons, h.tokens u]
    constructor
    · rintro (⟨hu, hmu⟩ | rfl)
      · exact ⟨.inr hu, hmu⟩
      · exact ⟨.inl rfl, m, hm⟩
    · rintro ⟨rfl | hu, hmu⟩
      · exact .inr rfl
      · exact .inl ⟨hu, hmu⟩

/-- When all references of its markup are marked, a component leaves the stack. -/
theorem Swept.leave {m : Text} (h : Swept site d reached (k + 1) (stack ++ [t]) w)
    (hm : markupIn site d t = .ok (some m)) (hmarked : ∀ u ∈ Component.tokens site m, u ∈ w.seen) :
    Swept site d reached k stack w := by
  refine ⟨h.walking.fewer, fun u hu => h.busy u (List.mem_append_left _ hu), ?_, h.tokens⟩
  intro u hu hstack v hrefers
  by_cases hut : u = t
  · subst hut
    obtain ⟨m', hm', hv⟩ := hrefers
    rw [hm] at hm'
    cases hm'
    exact hmarked v hv
  · refine h.closed u hu (fun hc => ?_) v hrefers
    rcases List.mem_append.1 hc with hc | hc
    · exact hstack hc
    · exact hut (List.mem_singleton.1 hc)

theorem runOn_forM_cons {α σ : Type} (f : α → StateT σ Reading PUnit) (x : α) (xs : List α) (i : σ) (l : Log) :
    runOn ((x :: xs).forM f) i d l =
      match runOn (f x) i d l with
      | (.ok (_, i'), l') => runOn (xs.forM f) i' d l'
      | (.error e, l') => (.error e, l') := by
  show runOn (f x >>= fun _ => xs.forM f) i d l = _
  rw [runOn_bind]
  rcases runOn (f x) i d l with ⟨_ | ⟨_, i'⟩, l'⟩ <;> rfl

theorem runOn_forM_meet_of_mem {depth : Nat} {ts : List Text} (h : t ∈ w.seen) (l : Log) :
    runOn ((t :: ts).forM (meet site depth)) w d l = runOn (ts.forM (meet site depth)) w d l := by
  rw [runOn_forM_cons, runOn_meet, if_pos h]

/-- A collection that goes through some tokens marks them all, and finds the components of their trail that it
has not found before, in the order of the trail. What it does not follow again leads to nothing new. -/
theorem Trail.sweep {ts trail : List Text} (h : Trail site d stack ts trail) (hclosed : ClosedUnder site d reached)
    (hts : ∀ t ∈ ts, t ∈ reached) {depth : Nat} (hdepth : reached.card ≤ depth + k)
    (hw : Swept site d reached k stack w) (l : Log) :
    ∃ w', runOn (ts.forM (meet site depth)) w d l = (.ok ((), w'), l) ∧ Swept site d reached k stack w' ∧
      (∀ t ∈ w.seen, t ∈ w'.seen) ∧ (∀ t ∈ ts, t ∈ w'.seen) ∧
      w'.found.map (·.token) = trail.foldl useToken (w.found.map (·.token)) := by
  induction h generalizing k depth w with
  | nil stack => exact ⟨w, rfl, hw, fun _ h => h, fun _ h => absurd h List.not_mem_nil, rfl⟩
  | @again stack ts trail t hstack _ ih =>
    obtain ⟨w', hrun, hw', hkept, hmarked, hfound⟩ :=
      ih (fun u hu => hts u (List.mem_cons_of_mem t hu)) hdepth hw
    have hseen : t ∈ w.seen := hw.busy t hstack
    refine ⟨w', ?_, hw', hkept, List.forall_mem_cons.2 ⟨hkept t hseen, hmarked⟩, hfound⟩
    exact (runOn_forM_meet_of_mem hseen l).trans hrun
  | @missing stack ts trail t _ hmissing _ ih =>
    have hrest : ∀ u ∈ ts, u ∈ reached := fun u hu => hts u (List.mem_cons_of_mem t hu)
    by_cases hseen : t ∈ w.seen
    · obtain ⟨w', hrun, hw', hkept, hmarked, hfound⟩ := ih hrest hdepth hw
      refine ⟨w', ?_, hw', hkept, List.forall_mem_cons.2 ⟨hkept t hseen, hmarked⟩, hfound⟩
      exact (runOn_forM_meet_of_mem hseen l).trans hrun
    · obtain ⟨w', hrun, hw', hkept, hmarked, hfound⟩ :=
        ih hrest hdepth (hw.mark_missing (hts t List.mem_cons_self) hseen hmissing)
      refine ⟨w', ?_, hw', fun u hu => hkept u (List.mem_cons_of_mem t hu),
        List.forall_mem_cons.2 ⟨hkept t List.mem_cons_self, hmarked⟩, hfound⟩
      rw [runOn_forM_cons, runOn_meet, if_neg hseen, runOn_visit, found_of_markupIn_none hmissing]
      exact hrun
  | @component stack ts inner trail t m hnew hmarkup nested _ ihNested ihRest =>
    have ht : t ∈ reached := hts t List.mem_cons_self
    have hrest : ∀ u ∈ ts, u ∈ reached := fun u hu => hts u (List.mem_cons_of_mem t hu)
    by_cases hseen : t ∈ w.seen
    · -- the token has been left before, and with it all that it leads to off the stack
      have hold : ∀ u ∈ t :: inner, u ∈ w.found.map (·.token) := by
        refine List.forall_mem_cons.2 ⟨(hw.tokens t).2 ⟨hseen, m, hmarkup⟩, fun u hu => (hw.tokens u).2 ?_⟩
        refine nested.subset (fun v hv => hw.closed t hseen hnew v ⟨m, hmarkup, hv⟩) (fun v hv hstack => ?_) u hu
        exact hw.closed v hv fun hc => hstack (List.mem_append_left _ hc)
      obtain ⟨w', hrun, hw', hkept, hmarked, hfound⟩ := ihRest hrest hdepth hw
      refine ⟨w', ?_, hw', hkept, List.forall_mem_cons.2 ⟨hkept t hseen, hmarked⟩, ?_⟩
      · exact (runOn_forM_meet_of_mem hseen l).trans hrun
      · rw [← List.cons_append, List.foldl_append, foldl_useToken_of_subset hold]
        exact hfound
    · -- the token is new: its markup is swept with the token on the stack, and then the tokens behind it
      obtain ⟨c, hc, htext⟩ := found_of_markupIn hmarkup
      have hentered := hw.enter ht hseen hc hmarkup
      obtain ⟨depth, rfl⟩ : ∃ n, depth = n + 1 := by
        have := hentered.walking.le_card
        exact ⟨depth - 1, by omega⟩
      have hreferred : ∀ u ∈ tokens site m, u ∈ reached := fun u hu => hclosed t ht u ⟨m, hmarkup, hu⟩
      have hdeeper : reached.card ≤ depth + (k + 1) := by omega
      obtain ⟨w₁, hrun₁, hw₁, hkept₁, hmarked₁, hfound₁⟩ := ihNested hreferred hdeeper hentered
      obtain ⟨w', hrun, hw', hkept, hmarked, hfound⟩ := ihRest hrest hdepth (hw₁.leave hmarkup hmarked₁)
      have hseen₁ : ∀ u ∈ t :: w.seen, u ∈ w'.seen := fun u hu => hkept u (hkept₁ u hu)
      refine ⟨w', ?_, hw', fun u hu => hseen₁ u (List.mem_cons_of_mem t hu),
        List.forall_mem_cons.2 ⟨hseen₁ t List.mem_cons_self, hmarked⟩, ?_⟩
      · rw [runOn_forM_cons, runOn_meet, if_neg hseen, runOn_visit, hc]
        simp only [htext, follow_succ]
        rw [hrun₁]
        exact hrun
      · have hfresh : t ∉ w.found.map (·.token) := fun hmem => hseen ((hw.tokens t).1 hmem).1
        rw [hfound, hfound₁, List.map_append, List.map_singleton, (of_found hc).1, List.foldl_cons,
          List.foldl_append, useToken_of_not_mem hfresh]

theorem swept_empty (site : Site) (d : Disk) (reached : Finset Text) : Swept site d reached 0 [] ⟨[], []⟩ :=
  ⟨walking_empty site d reached, fun _ h => absurd h List.not_mem_nil, fun _ h => absurd h List.not_mem_nil,
    fun _ => ⟨fun h => absurd h List.not_mem_nil, fun h => absurd h.1 List.not_mem_nil⟩⟩

/-- A collection gives the components of a trail of the page, each where it is met first; these are all the
components that are reached. -/
theorem Trail.collect {trail : List Text} (h : Trail site d [] (tokens site page) trail)
    (hread : ∀ t, Reaches site d page t → Readable site d t) (l : Log) :
    ∃ cs, outcome (Component.collect site page) d l = (.ok cs, l) ∧
      cs.map (·.token) = trail.eraseDups ∧ (cs.map (·.token)).Nodup ∧
      ∀ c, c ∈ cs ↔ Reaches site d page c.token ∧ found site d c.token = .ok (some c) := by
  obtain ⟨reached, hreached, hbound⟩ := exists_reached_lt_nestingBound site d page
  obtain ⟨depth, hdepth⟩ : ∃ n, boundOn d page = n + 1 := ⟨boundOn d page - 1, by omega⟩
  have htokens : ∀ t ∈ tokens site page, t ∈ reached := fun t ht => (hreached t).2 (reaches_of_mem ht)
  have hdeep : reached.card ≤ depth + 0 := by omega
  obtain ⟨w, hrun, hw, -, hmarked, hfound⟩ :=
    h.sweep (closedUnder_reached hreached) htokens hdeep (swept_empty site d reached) l
  rw [List.map_nil] at hfound
  refine ⟨w.found, ?_, by rw [hfound, foldl_useToken_nil], ?_, fun c => ⟨fun hc => ?_, fun hc => ?_⟩⟩
  · rw [outcome_collect, hdepth, follow_succ, hrun]
  · rw [hfound]
    exact nodup_foldl_useToken List.nodup_nil trail
  · obtain ⟨hseen, hcomponent⟩ := hw.walking.found c hc
    exact ⟨(hreached _).1 (hw.walking.reached _ hseen), hcomponent⟩
  · have hseen : c.token ∈ w.seen :=
      mem_of_reaches hmarked (fun t ht => hw.closed t ht List.not_mem_nil) hc.1
    have hmarkup : ∃ m, markupIn site d c.token = .ok (some m) := by
      obtain ⟨r, hr⟩ := (hread c.token hc.1).markupIn_ok
      cases r with
      | some m => exact ⟨m, hr⟩
      | none =>
        have hmissing := found_of_markupIn_none hr
        rw [hc.2] at hmissing
        cases hmissing
    obtain ⟨c', hc', heq⟩ := List.mem_map.1 ((hw.tokens c.token).2 ⟨hseen, hmarkup⟩)
    have hsame := (hw.walking.found c' hc').2
    rw [heq, hc.2] at hsame
    cases hsame
    exact hc'

/-! ## Collections and injections -/

end Sitewright.Component
