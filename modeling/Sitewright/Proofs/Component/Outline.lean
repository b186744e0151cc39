import Sitewright.Proofs.Component.Cycle
/-!
# Expansions without an order of work

An injection reads each markup once and notes the components it meets. What it returns depends on neither:
`Expands` says by the structure of the references alone what a text expands to and which tokens are used on
the way, with a token once for each reference that is followed.

* `Replaces`, `Expands`: the texts that take the place of references, and the tokens used in order.
* `Meets`: what a step of an injection gives, and how far it leads in the tokens used.

Main statements: a text has one expansion (`Replaces.unique`); what comes to an end gives it (`Meets.expand`),
and where there is one, an injection comes to an end with it (`Expands.run`).
-/
set_option autoImplicit false

namespace Sitewright.Component

open Reading (outcome textIn)

variable {α β : Type} {site : Site} {d : Disk} {tree : Variables} {page : Text}

/-! ## Expansions -/

/-- A text with one text after the other in the place of its references. -/
def filled (site : Site) (s : Text) (texts : List Text) : Text :=
  Scan.fill [] (Scan.scan (reference site.componentNamespace) s) texts

/-- The texts that take the place of some references, and the tokens whose markup is used for them: for each
reference its own token first, then those of its markup. A reference without a component gives nothing. -/
inductive Replaces (site : Site) (d : Disk) (tree : Variables) :
    List Text → List Text → List Text → Prop
  | nil : Replaces site d tree [] [] []
  | missing {raw : Text} {raws texts uses : List Text} (hmissing : markupIn site d (Text.trim raw) = .ok none)
      (rest : Replaces site d tree raws texts uses) : Replaces site d tree (raw :: raws) ([] :: texts) uses
  | component {raw markup rendered : Text} {inner innerUses raws texts uses : List Text}
      (hmarkup : markupIn site d (Text.trim raw) = .ok (some markup))
      (nested : Replaces site d tree (references site markup) inner innerUses)
      (hrendered : Variable.render (filled site markup inner) tree = .ok rendered)
      (rest : Replaces site d tree raws texts uses) :
      Replaces site d tree (raw :: raws) (Text.trim rendered :: texts) (Text.trim raw :: (innerUses ++ uses))

/-- A text with every reference replaced by the expansion of its component, and the tokens used in order. -/
def Expands (site : Site) (d : Disk) (tree : Variables) (s out : Text) (uses : List Text) : Prop :=
  ∃ texts, Replaces site d tree (references site s) texts uses ∧ out = filled site s texts

theorem Replaces.unique {raws texts texts' uses uses' : List Text}
    (h : Replaces site d tree raws texts uses) (h' : Replaces site d tree raws texts' uses') :
    texts' = texts ∧ uses' = uses := by
  induction h generalizing texts' uses' with
  | nil =>
    cases h'
    exact ⟨rfl, rfl⟩
  | missing hmissing _ ih =>
    cases h' with
    | missing _ rest' =>
      obtain ⟨rfl, rfl⟩ := ih rest'
      exact ⟨rfl, rfl⟩
    | component hmarkup' _ _ _ =>
      rw [hmissing] at hmarkup'
      cases hmarkup'
  | component hmarkup _ hrendered _ ihNested ihRest =>
    cases h' with
    | missing hmissing' _ =>
      rw [hmarkup] at hmissing'
      cases hmissing'
    | component hmarkup' nested' hrendered' rest' =>
      rw [hmarkup] at hmarkup'
      cases hmarkup'
      obtain ⟨rfl, rfl⟩ := ihNested nested'
      obtain ⟨rfl, rfl⟩ := ihRest rest'
      rw [hrendered] at hrendered'
      cases hrendered'
      exact ⟨rfl, rfl⟩

theorem Replaces.append {raws raws' texts texts' uses uses' : List Text}
    (h : Replaces site d tree raws texts uses) (h' : Replaces site d tree raws' texts' uses') :
    Replaces site d tree (raws ++ raws') (texts ++ texts') (uses ++ uses') := by
  induction h with
  | nil => exact h'
  | missing hmissing _ ih => exact .missing hmissing ih
  | component hmarkup nested hrendered _ _ ih =>
    have hcons := Replaces.component hmarkup nested hrendered ih
    rw [← List.append_assoc] at hcons
    exact hcons

/-! ## Tokens used -/

/-- The tokens used so far with one more: each counts where it is used first. -/
def useToken (met : List Text) (t : Text) : List Text := if met.contains t then met else met ++ [t]

theorem useToken_of_mem {met : List Text} {t : Text} (h : t ∈ met) : useToken met t = met :=
  if_pos (List.contains_iff_mem.2 h)

theorem useToken_of_not_mem {met : List Text} {t : Text} (h : t ∉ met) : useToken met t = met ++ [t] :=
  if_neg (mt List.contains_iff_mem.1 h)

theorem foldl_useToken (met uses : List Text) :
    uses.foldl useToken met = met ++ (uses.removeAll met).eraseDups := by
  induction uses generalizing met with
  | nil => simp [List.removeAll]
  | cons t uses ih =>
    rw [List.foldl_cons, ih, List.cons_removeAll]
    by_cases ht : t ∈ met
    · rw [useToken_of_mem ht, if_neg (by simpa using ht)]
    · rw [useToken_of_not_mem ht, if_pos (by simpa using ht), List.eraseDups_cons, List.append_assoc]
      have hfilter : uses.removeAll (met ++ [t]) = (uses.removeAll met).filter fun u => !u == t := by
        rw [List.removeAll, List.removeAll, List.filter_filter]
        refine List.filter_congr fun u _ => ?_
        by_cases hu : u ∈ met <;> by_cases hut : u = t <;> simp [hu, hut]
      rw [hfilter, List.singleton_append]

theorem foldl_useToken_nil (uses : List Text) : uses.foldl useToken [] = uses.eraseDups := by
  rw [foldl_useToken, List.nil_append, List.removeAll_nil]

/-- What an injection has met is right, and the components used are those whose markup has been read, each
of them once. -/
structure Met (site : Site) (d : Disk) (i : Injection) : Prop where
  known : Known site d Anything i
  read : ∀ t, t ∈ i.used.map (·.token) ↔ ∃ s, Keyed.get? t i.markup = some (some s)
  nodup : (i.used.map (·.token)).Nodup

theorem met_empty (site : Site) (d : Disk) : Met site d ⟨[], []⟩ :=
  ⟨known_empty site d Anything, fun _ => ⟨fun h => absurd h List.not_mem_nil, fun ⟨_, h⟩ => by cases h⟩,
    List.nodup_nil⟩

theorem Met.not_mem_used {i : Injection} (h : Met site d i) {t : Text} (hnew : Keyed.get? t i.markup = none) :
    t ∉ i.used.map (·.token) := by
  intro hmem
  obtain ⟨s, hs⟩ := (h.read t).1 hmem
  rw [hnew] at hs
  cases hs

theorem Met.put_missing {i : Injection} (h : Met site d i) {t : Text} (hnew : Keyed.get? t i.markup = none)
    (hmissing : markupIn site d t = .ok none) : Met site d { i with markup := Keyed.put t none i.markup } := by
  refine ⟨h.known.put hmissing h.known.used, fun u => ?_, h.nodup⟩
  rw [h.read u]
  by_cases hu : u = t
  · subst hu
    rw [hnew, Keyed.get?_put_self]
    simp
  · rw [Keyed.get?_put_of_ne hu]

theorem Met.put_component {i : Injection} (h : Met site d i) {c : Component} {s : Text}
    (hnew : Keyed.get? c.token i.markup = none) (hfound : found site d c.token = .ok (some c))
    (hmarkup : markupIn site d c.token = .ok (some s)) :
    Met site d ⟨i.used ++ [c], Keyed.put c.token (some s) i.markup⟩ := by
  have hfresh := h.not_mem_used hnew
  refine ⟨h.known.put hmarkup fun c' hc' => ?_, fun u => ?_, ?_⟩
  · rcases List.mem_append.1 hc' with hc' | hc'
    · exact h.known.used c' hc'
    · rw [List.mem_singleton.1 hc']
      exact ⟨hfound, trivial⟩
  · rw [List.map_append, List.mem_append, h.read u]
    by_cases hu : u = c.token
    · subst hu
      rw [Keyed.get?_put_self]
      simp
    · rw [Keyed.get?_put_of_ne hu]
      simp [hu]
  · rw [List.map_append]
    refine List.nodup_append.2 ⟨h.nodup, List.nodup_singleton _, fun a ha b hb hab => hfresh ?_⟩
    have hb' : b = c.token := List.mem_singleton.1 hb
    rw [← hb', ← hab]
    exact ha

/-! ## What a step meets -/

/-- A step that comes to an end with a result has added to the tokens used, at the places of their first use,
some that go with that result. -/
def Meets (site : Site) (d : Disk) (m : Injecting α) (post : α → List Text → Prop) : Prop :=
  ∀ i l a i' l', Met site d i → runOn m i d l = (.ok (a, i'), l') →
    Met site d i' ∧ ∃ uses, post a uses ∧ i'.used.map (·.token) = uses.foldl useToken (i.used.map (·.token))

theorem Meets.pure {a : α} {post : α → List Text → Prop} (h : post a []) :
    Meets site d (pure a : Injecting α) post := by
  intro i l a' i' l' hi hrun
  cases hrun
  exact ⟨hi, [], h, rfl⟩

theorem Meets.throw {e : Failure} {post : α → List Text → Prop} :
    Meets site d (throw e : Injecting α) post := by
  intro i l a i' l' _ hrun
  rw [runOn_throw] at hrun
  cases hrun

theorem Meets.bind {m : Injecting α} {f : α → Injecting β} {mid : α → List Text → Prop}
    {post : β → List Text → Prop} (hm : Meets site d m mid)
    (hf : ∀ a uses, mid a uses → Meets site d (f a) fun b uses' => post b (uses ++ uses')) :
    Meets site d (m >>= f) post := by
  intro i l b i₂ l₂ hi hrun
  rw [runOn_bind] at hrun
  rcases hfirst : runOn m i d l with ⟨_ | ⟨a, i₁⟩, l₁⟩
  · rw [hfirst] at hrun
    cases hrun
  · rw [hfirst] at hrun
    obtain ⟨hi₁, uses, hmid, hused⟩ := hm i l a i₁ l₁ hi hfirst
    obtain ⟨hi₂, uses', hpost, hused'⟩ := hf a uses hmid i₁ l₁ b i₂ l₂ hi₁ hrun
    refine ⟨hi₂, uses ++ uses', hpost, ?_⟩
    rw [hused', hused, List.foldl_append]

/-- A token is used where it has a markup. -/
theorem Meets.markupOf (token : Text) :
    Meets site d (Component.markupOf site token) fun r uses =>
      markupIn site d token = .ok r ∧ uses = if r.isSome then [token] else [] := by
  intro i l r i' l' hi hrun
  have hmarkup : markupIn site d token = .ok r := by
    have hensures : Ensures d (Known site d Anything) (Component.markupOf site token)
        (fun r => markupIn site d token = .ok r) (fun e => markupIn site d token = .error e) :=
      Ensures.markupOf trivial
    have h := hensures i l hi.known
    rw [hrun] at h
    exact h.2
  rw [runOn_markupOf] at hrun
  cases hget : Keyed.get? token i.markup with
  | some r' =>
    rw [hget] at hrun
    cases hrun
    refine ⟨hi, _, ⟨hmarkup, rfl⟩, ?_⟩
    cases r with
    | none => rfl
    | some s =>
      have hmem : token ∈ i.used.map (·.token) := (hi.read token).2 ⟨s, hget⟩
      show _ = useToken _ token
      rw [useToken_of_mem hmem]
  | none =>
    rw [hget] at hrun
    rcases hfound : found site d token with e | _ | c
    · rw [hfound] at hrun
      cases hrun
    · rw [hfound] at hrun
      cases hrun
      exact ⟨hi.put_missing hget hmarkup, _, ⟨hmarkup, rfl⟩, rfl⟩
    · rw [hfound] at hrun
      simp only at hrun
      cases htext : textIn d c.markup with
      | error e =>
        rw [htext] at hrun
        cases hrun
      | ok s =>
        rw [htext] at hrun
        cases hrun
        obtain rfl : c.token = token := (of_found hfound).1
        refine ⟨hi.put_component hget hfound hmarkup, _, ⟨hmarkup, rfl⟩, ?_⟩
        show _ = useToken _ c.token
        rw [useToken_of_not_mem (hi.not_mem_used hget), List.map_append, List.map_singleton]

theorem Meets.rendered {inner : Text} :
    Meets site d (Reading.ofExcept .badIndex (Variable.render inner tree) : Reading Text) fun rendered uses =>
      Variable.render inner tree = .ok rendered ∧ uses = [] := by
  intro i l a i' l' hi hrun
  rw [runOn_lift, Reading.outcome_ofExcept] at hrun
  cases hs : Variable.render inner tree with
  | error b =>
    rw [hs] at hrun
    cases hrun
  | ok s =>
    rw [hs] at hrun
    cases hrun
    exact ⟨hi, [], ⟨rfl, rfl⟩, rfl⟩

/-- A reference is replaced as `Replaces` says, if the expansion of its markup is. -/
theorem Meets.replacementOf {depth : Nat} {stack : List Text} {raw : Text}
    (hnested : ∀ m, Meets site d (Component.expand site tree depth (stack ++ [Text.trim raw]) m)
      fun out uses => Expands site d tree m out uses) :
    Meets site d (Component.replacementOf site tree depth stack raw) fun text uses =>
      Replaces site d tree [raw] [text] uses := by
  by_cases hmem : Text.trim raw ∈ stack
  · rw [replacementOf_of_mem hmem]
    exact Meets.throw
  · rw [replacementOf_of_not_mem hmem]
    refine (Meets.markupOf (Text.trim raw)).bind ?_
    rintro (_ | m) _ ⟨hmarkup, rfl⟩
    · exact Meets.pure (.missing hmarkup .nil)
    · refine (hnested m).bind ?_
      rintro _ innerUses ⟨inner, hinner, rfl⟩
      refine Meets.rendered.bind ?_
      rintro rendered _ ⟨hrendered, rfl⟩
      have hsingle : Replaces site d tree [raw] [Text.trim rendered] (Text.trim raw :: (innerUses ++ [])) :=
        .component hmarkup hinner hrendered .nil
      exact Meets.pure hsingle

theorem Meets.mapM {f : Text → Injecting Text} {raws : List Text}
    (h : ∀ raw ∈ raws, Meets site d (f raw) fun text uses => Replaces site d tree [raw] [text] uses) :
    Meets site d (raws.mapM f) fun texts uses => Replaces site d tree raws texts uses := by
  induction raws with
  | nil => exact Meets.pure .nil
  | cons raw raws ih =>
    rw [List.mapM_cons]
    refine (h raw List.mem_cons_self).bind fun text uses hfirst => ?_
    refine (ih fun raw hraw => h raw (List.mem_cons_of_mem _ hraw)).bind fun texts uses' hrest => ?_
    exact Meets.pure (by simpa using hfirst.append hrest)

/-- An expansion that comes to an end gives what the text expands to, and leads through the tokens used in it
in order. -/
theorem Meets.expand (depth : Nat) (stack : List Text) (s : Text) :
    Meets site d (Component.expand site tree depth stack s) fun out uses => Expands site d tree s out uses := by
  induction depth generalizing stack s with
  | zero => exact Meets.throw
  | succ depth ih =>
    rw [expand_succ]
    refine (Meets.mapM fun raw _ => Meets.replacementOf (ih _)).bind fun texts uses h => ?_
    exact Meets.pure ⟨texts, by simpa using h, rfl⟩

/-! ## Expansions come to an end -/

/-- Every path of references from a token that is replaced is finite. -/
theorem Replaces.acc {raws texts uses : List Text} (h : Replaces site d tree raws texts uses) :
    ∀ raw ∈ raws, Acc (fun u t => Refers site d t u) (Text.trim raw) := by
  induction h with
  | nil => exact fun raw hraw => absurd hraw List.not_mem_nil
  | missing hmissing _ ih =>
    intro raw hraw
    rcases List.mem_cons.1 hraw with rfl | hraw
    · refine .intro _ fun u hu => ?_
      obtain ⟨m, hm, _⟩ := hu
      rw [hmissing] at hm
      cases hm
    · exact ih raw hraw
  | component hmarkup _ _ _ ihNested ihRest =>
    intro raw hraw
    rcases List.mem_cons.1 hraw with rfl | hraw
    · refine .intro _ fun u hu => ?_
      obtain ⟨m, hm, hmem⟩ := hu
      rw [hmarkup] at hm
      cases hm
      obtain ⟨inner, hinner, rfl⟩ := List.mem_map.1 hmem
      exact ihNested inner hinner
    · exact ihRest raw hraw

/-- Nothing that a text with an expansion reaches lies on a cycle. -/
theorem Expands.acyclic {s out : Text} {uses : List Text} (h : Expands site d tree s out uses) :
    ¬ ∃ t, Reaches site d s t ∧ Relation.TransGen (Refers site d) t t := by
  obtain ⟨texts, hreplaces, -⟩ := h
  rintro ⟨u, ⟨t, ht, hpath⟩, hcycle⟩
  obtain ⟨raw, hraw, rfl⟩ := List.mem_map.1 ht
  have hacc : Acc (fun u t => Refers site d t u) u := by
    clear hcycle
    induction hpath with
    | refl => exact hreplaces.acc raw hraw
    | tail _ hlast ih => exact ih.inv hlast
  have hloop : Relation.TransGen (fun u t => Refers site d t u) u u :=
    Relation.transGen_swap.1 hcycle
  have hself : Acc (Relation.TransGen fun u t => Refers site d t u) u := acc_transGen_iff.2 hacc
  have hirrefl : ∀ v, Acc (Relation.TransGen fun u t => Refers site d t u) v →
      ¬ Relation.TransGen (fun u t => Refers site d t u) v v := by
    intro v hv
    induction hv with
    | intro v _ ih => exact fun h => ih v h h
  exact hirrefl u hself hloop

theorem Ensures.replacementOf_missing {depth : Nat} {stack : List Text} {raw : Text} {fails : Failure → Prop}
    (hnew : Text.trim raw ∉ stack) (hmissing : markupIn site d (Text.trim raw) = .ok none) :
    Ensures d (Known site d Anything) (Component.replacementOf site tree depth stack raw)
      (fun text => text = []) fails := by
  rw [replacementOf_of_not_mem hnew]
  refine ((Ensures.markupOf trivial).mono (fun _ h => h) fun e he => ?_).bind fun r hr => ?_
  · rw [hmissing] at he
    cases he
  · rw [hmissing] at hr
    cases hr
    exact Ensures.pure rfl

theorem Ensures.replacementOf_component {depth : Nat} {stack : List Text} {raw m inner rendered : Text}
    {fails : Failure → Prop} (hnew : Text.trim raw ∉ stack)
    (hmarkup : markupIn site d (Text.trim raw) = .ok (some m))
    (hnested : Ensures d (Known site d Anything) (Component.expand site tree depth (stack ++ [Text.trim raw]) m)
      (fun out => out = inner) fails)
    (hrendered : Variable.render inner tree = .ok rendered) :
    Ensures d (Known site d Anything) (Component.replacementOf site tree depth stack raw)
      (fun text => text = Text.trim rendered) fails := by
  rw [replacementOf_of_not_mem hnew]
  refine ((Ensures.markupOf trivial).mono (fun _ h => h) fun e he => ?_).bind fun r hr => ?_
  · rw [hmarkup] at he
    cases he
  · rw [hmarkup] at hr
    cases hr
    refine hnested.bind ?_
    rintro _ rfl
    intro i l hi
    rw [runOn_bind, runOn_lift, Reading.outcome_ofExcept, hrendered]
    exact ⟨hi, rfl⟩

/-- References that are replaced, in a text that is met under a stack, are replaced without a failure: no cycle
stops them, every markup can be read and every text rendered. -/
theorem Ensures.replacements_ok {reached : Finset Text} (hall : ∀ t, Reaches site d page t → t ∈ reached)
    (hacyclic : ¬ ∃ t, Reaches site d page t ∧ Relation.TransGen (Refers site d) t t)
    {raws texts uses : List Text} (h : Replaces site d tree raws texts uses) {depth : Nat}
    {stack : List Text} {s : Text} (halong : Along site d page stack s)
    (hraws : ∀ raw ∈ raws, raw ∈ references site s) (hdepth : reached.card < depth + 1 + stack.length) :
    Ensures d (Known site d Anything) (raws.mapM (Component.replacementOf site tree depth stack))
      (fun out => out = texts) (fun _ => False) := by
  have hnew : ∀ {stack : List Text} {s raw : Text}, Along site d page stack s → raw ∈ references site s →
      Text.trim raw ∉ stack := fun halong hraw hmem =>
    hacyclic (halong.closes (trim_mem_tokens hraw) hmem).exists_cycle
  induction h generalizing depth stack s with
  | nil => exact Ensures.pure rfl
  | @missing raw raws texts uses hmissing _ ih =>
    have hraw : raw ∈ references site s := hraws raw List.mem_cons_self
    rw [List.mapM_cons]
    refine (Ensures.replacementOf_missing (hnew halong hraw) hmissing).bind ?_
    rintro _ rfl
    refine (ih halong (fun r hr => hraws r (List.mem_cons_of_mem _ hr)) hdepth).bind ?_
    rintro _ rfl
    exact Ensures.pure rfl
  | @component raw m rendered inner innerUses raws texts uses hmarkup _ hrendered _ ihNested ihRest =>
    have hraw : raw ∈ references site s := hraws raw List.mem_cons_self
    have hnext : Along site d page (stack ++ [Text.trim raw]) m :=
      halong.step (trim_mem_tokens hraw) (hnew halong hraw) hmarkup
    have hlen : (stack ++ [Text.trim raw]).length = stack.length + 1 := by simp
    -- the stack goes along the page, so it has no more tokens than are reached
    obtain ⟨depth, rfl⟩ : ∃ k, depth = k + 1 := by
      have hle := hnext.length_le hall
      exact ⟨depth - 1, by omega⟩
    have hnested : Ensures d (Known site d Anything)
        (Component.expand site tree (depth + 1) (stack ++ [Text.trim raw]) m)
        (fun out => out = filled site m inner) (fun _ => False) := by
      rw [Component.expand_succ]
      refine (ihNested hnext (fun _ h => h) (by omega)).bind ?_
      rintro _ rfl
      exact Ensures.pure rfl
    rw [List.mapM_cons]
    refine (Ensures.replacementOf_component (hnew halong hraw) hmarkup hnested hrendered).bind ?_
    rintro _ rfl
    refine (ihRest halong (fun r hr => hraws r (List.mem_cons_of_mem _ hr)) hdepth).bind ?_
    rintro _ rfl
    exact Ensures.pure rfl

/-- Where a page expands, its expansion within the bound of an injection comes to an end with that, and with
the components of the tokens in the order of their first use. -/
theorem Expands.run {out : Text} {uses : List Text} (h : Expands site d tree page out uses) (l : Log) :
    ∃ i l', runOn (expand site tree (boundOn d page) [] page) ⟨[], []⟩ d l = (.ok (out, i), l') ∧
      Met site d i ∧ i.used.map (·.token) = uses.eraseDups := by
  obtain ⟨reached, hreached, hbound⟩ := exists_reached_lt_nestingBound site d page
  obtain ⟨texts, hreplaces, rfl⟩ := id h
  obtain ⟨depth, hdepth⟩ : ∃ k, boundOn d page = k + 1 := ⟨boundOn d page - 1, by omega⟩
  have hok : Ensures d (Known site d Anything) (expand site tree (boundOn d page) [] page)
      (fun out => out = filled site page texts) (fun _ => False) := by
    rw [hdepth, expand_succ]
    refine (Ensures.replacements_ok (fun t ht => (hreached t).2 ht) h.acyclic hreplaces .start
      (fun _ h => h) (by rw [List.length_nil]; omega)).bind ?_
    rintro _ rfl
    exact Ensures.pure rfl
  have hend := hok ⟨[], []⟩ l (known_empty site d Anything)
  rcases hrun : runOn (expand site tree (boundOn d page) [] page) ⟨[], []⟩ d l with ⟨_ | ⟨out, i⟩, l'⟩
  · rw [hrun] at hend
    exact hend.elim
  · rw [hrun] at hend
    obtain ⟨-, rfl⟩ := hend
    obtain ⟨hmet, uses', ⟨texts', hreplaces', -⟩, hused⟩ := Meets.expand _ _ _ _ _ _ _ _ (met_empty site d) hrun
    obtain ⟨-, rfl⟩ := hreplaces.unique hreplaces'
    exact ⟨i, l', rfl, hmet, by rw [hused, List.map_nil, foldl_useToken_nil]⟩

end Sitewright.Component
