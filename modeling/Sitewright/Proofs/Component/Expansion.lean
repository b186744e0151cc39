import Sitewright.Component.Injection
import Sitewright.Proofs.Component.Graph
/-!
# Following an injection

An injection carries what it has met so far from one reference to the next. `runOn` opens a step with such a
state to a function of that state, a disk and a log; `Ensures` says what a step gives and what it keeps, and
`Same` that two steps on two disks cannot be told apart. Both have a rule for each way in which steps are put
together, and at the end one for a whole expansion.

Main statements: a markup is what the disk holds (`Ensures.markupOf`), an expansion ensures whatever its
references ensure (`Ensures.expand_succ`), and two expansions agree where the disks agree on the tokens
reached and both bounds on nesting are large enough (`Same.expand`).
-/
set_option autoImplicit false

namespace Sitewright.Component

open Reading (outcome textIn)

variable {α β σ : Type}

/-! ## Steps as functions -/

def runOn (m : StateT σ Reading α) (i : σ) (d : Disk) (l : Log) : Except Failure (α × σ) × Log :=
  outcome (m.run i) d l

theorem runOn_throw (e : Failure) (i : σ) (d : Disk) (l : Log) :
    runOn (throw e : StateT σ Reading α) i d l = (.error e, l) := rfl

theorem runOn_get (i : σ) (d : Disk) (l : Log) : runOn get i d l = (.ok (i, i), l) := rfl

theorem runOn_modify (f : σ → σ) (i : σ) (d : Disk) (l : Log) :
    runOn (modify f) i d l = (.ok (⟨⟩, f i), l) := rfl

theorem runOn_bind (m : StateT σ Reading α) (f : α → StateT σ Reading β) (i : σ) (d : Disk) (l : Log) :
    runOn (m >>= f) i d l =
      match runOn m i d l with
      | (.ok (a, i'), l') => runOn (f a) i' d l'
      | (.error e, l') => (.error e, l') := by
  unfold runOn
  rw [StateT.run_bind, Reading.outcome_bind]
  rcases outcome (m.run i) d l with ⟨r, l'⟩
  cases r <;> rfl

theorem runOn_lift (x : Reading α) (i : σ) (d : Disk) (l : Log) :
    runOn (x : StateT σ Reading α) i d l =
      match outcome x d l with
      | (.ok a, l') => (.ok (a, i), l')
      | (.error e, l') => (.error e, l') := by
  show outcome (x >>= fun a => pure (a, i)) d l = _
  rw [Reading.outcome_bind]
  rfl

/-! ## What a step ensures -/

/-- From any state in `I`, the step ends in a state in `I` with a result in `post`, or with a failure in
`fails`. -/
def Ensures (d : Disk) (I : σ → Prop) (m : StateT σ Reading α) (post : α → Prop)
    (fails : Failure → Prop) : Prop :=
  ∀ i l, I i →
    match runOn m i d l with
    | (.ok (a, i'), _) => I i' ∧ post a
    | (.error e, _) => fails e

variable {d : Disk} {I : σ → Prop} {fails : Failure → Prop}

theorem Ensures.mono {m : StateT σ Reading α} {post post' : α → Prop} {fails' : Failure → Prop}
    (h : Ensures d I m post fails) (hpost : ∀ a, post a → post' a)
    (hfails : ∀ e, fails e → fails' e) : Ensures d I m post' fails' := by
  intro i l hi
  have hm := h i l hi
  rcases hrun : runOn m i d l with ⟨r, l'⟩
  rw [hrun] at hm
  match r, hm with
  | .ok (a, i'), hm => exact ⟨hm.1, hpost a hm.2⟩
  | .error e, hm => exact hfails e hm

theorem Ensures.pure {a : α} {post : α → Prop} (h : post a) :
    Ensures d I (pure a : StateT σ Reading α) post fails :=
  fun _ _ hi => ⟨hi, h⟩

theorem Ensures.throw {e : Failure} {post : α → Prop} (h : fails e) :
    Ensures d I (throw e : StateT σ Reading α) post fails :=
  fun _ _ _ => h

theorem Ensures.bind {m : StateT σ Reading α} {f : α → StateT σ Reading β} {mid : α → Prop} {post : β → Prop}
    (hm : Ensures d I m mid fails) (hf : ∀ a, mid a → Ensures d I (f a) post fails) :
    Ensures d I (m >>= f) post fails := by
  intro i l hi
  have h := hm i l hi
  rw [runOn_bind]
  rcases hrun : runOn m i d l with ⟨r, l'⟩
  rw [hrun] at h
  match r, h with
  | .ok (a, i'), h => exact hf a h.2 i' l' h.1
  | .error e, h => exact h

theorem Ensures.mapM {f : α → StateT σ Reading β} {post : α → β → Prop} {xs : List α}
    (h : ∀ x ∈ xs, Ensures d I (f x) (post x) fails) :
    Ensures d I (xs.mapM f) (fun ys => List.Forall₂ post xs ys) fails := by
  induction xs with
  | nil => exact Ensures.pure .nil
  | cons x xs ih =>
    rw [List.mapM_cons]
    refine (h x List.mem_cons_self).bind fun y hy => ?_
    refine (ih fun z hz => h z (List.mem_cons_of_mem x hz)).bind fun ys hys => ?_
    exact Ensures.pure (.cons hy hys)

/-! ## What two steps have in common -/

/-- From any state in `I`, a step on one disk gives what another one gives on another disk. -/
def Same (d d' : Disk) (I : σ → Prop) (m m' : StateT σ Reading α) : Prop :=
  ∀ i l, I i → runOn m' i d' l = runOn m i d l

variable {d' : Disk}

theorem Same.bind {m m' : StateT σ Reading α} {f f' : α → StateT σ Reading β} {mid : α → Prop}
    (hsame : Same d d' I m m') (hm : Ensures d I m mid fails)
    (hf : ∀ a, mid a → Same d d' I (f a) (f' a)) : Same d d' I (m >>= f) (m' >>= f') := by
  intro i l hi
  have h := hm i l hi
  rw [runOn_bind, runOn_bind, hsame i l hi]
  rcases hrun : runOn m i d l with ⟨r, l'⟩
  rw [hrun] at h
  match r, h with
  | .ok (a, i'), h => exact hf a h.2 i' l' h.1
  | .error e, h => rfl

theorem Same.mapM {f f' : α → StateT σ Reading β} {xs : List α}
    (hsame : ∀ x ∈ xs, Same d d' I (f x) (f' x))
    (hm : ∀ x ∈ xs, Ensures d I (f x) (fun _ => True) fails) :
    Same d d' I (xs.mapM f) (xs.mapM f') := by
  induction xs with
  | nil => exact fun i l _ => rfl
  | cons x xs ih =>
    rw [List.mapM_cons, List.mapM_cons]
    refine (hsame x List.mem_cons_self).bind (hm x List.mem_cons_self) fun y _ => ?_
    have hrest := ih (fun z hz => hsame z (List.mem_cons_of_mem x hz))
      fun z hz => hm z (List.mem_cons_of_mem x hz)
    have hmap : Ensures d I (xs.mapM f) (fun ys => List.Forall₂ (fun _ _ => True) xs ys) fails :=
      Ensures.mapM fun z hz => hm z (List.mem_cons_of_mem x hz)
    exact hrest.bind hmap fun ys _ => fun i l _ => rfl

/-! ## Markup -/

/-- What an injection has met is as the disk has it, and the components used are those of tokens that may
be met. -/
structure Known (site : Site) (d : Disk) (may : Text → Prop) (i : Injection) : Prop where
  markup : ∀ t r, Keyed.get? t i.markup = some r → markupIn site d t = .ok r
  used : ∀ c ∈ i.used, found site d c.token = .ok (some c) ∧ may c.token

theorem known_empty (site : Site) (d : Disk) (may : Text → Prop) : Known site d may ⟨[], []⟩ :=
  ⟨fun _ _ h => (by cases h), fun _ h => absurd h List.not_mem_nil⟩

/-- Nothing is said of the tokens met. -/
def Anything : Text → Prop := fun _ => True

variable {site : Site} {may : Text → Prop}

theorem Known.put {i : Injection} (h : Known site d may i) {t : Text} {r : Option Text}
    {used : List Component} (hr : markupIn site d t = .ok r)
    (hused : ∀ c ∈ used, found site d c.token = .ok (some c) ∧ may c.token) :
    Known site d may ⟨used, Keyed.put t r i.markup⟩ := by
  refine ⟨fun u q hq => ?_, hused⟩
  rcases Keyed.of_get?_put hq with ⟨rfl, rfl⟩ | hq
  · exact hr
  · exact h.markup u q hq

def missingNotice (token : Text) : Notice :=
  ⟨.warning, "Component ".toList ++ token ++ " not found, dropping placeholder".toList⟩

/-- What looking up a token that has not been met yet gives. -/
theorem runOn_markupOf (token : Text) (i : Injection) (l : Log) :
    runOn (markupOf site token) i d l =
      match Keyed.get? token i.markup with
      | some known => (.ok (known, i), l)
      | none =>
        match found site d token with
        | .error e => (.error e, l)
        | .ok none =>
          (.ok (none, { i with markup := Keyed.put token none i.markup }),
            l ++ [missingNotice token])
        | .ok (some c) =>
          match textIn d c.markup with
          | .error e => (.error e, l)
          | .ok s => (.ok (some s, ⟨i.used ++ [c], Keyed.put token (some s) i.markup⟩), l) := by
  unfold markupOf
  rw [runOn_bind, runOn_get]
  simp only
  cases hknown : Keyed.get? token i.markup with
  | some known => rfl
  | none =>
    simp only
    rw [runOn_bind, runOn_lift, outcome_load]
    rcases hc : found site d token with e | _ | c
    · rfl
    · rfl
    · simp only
      rw [runOn_bind, runOn_lift, outcome_markupText hc]
      cases textIn d c.markup <;> rfl

theorem Ensures.markupOf {token : Text} (hmay : may token) :
    Ensures d (Known site d may) (markupOf site token) (fun r => markupIn site d token = .ok r)
      (fun e => markupIn site d token = .error e) := by
  intro i l hi
  rw [runOn_markupOf]
  cases hknown : Keyed.get? token i.markup with
  | some known => exact ⟨hi, hi.markup token known hknown⟩
  | none =>
    simp only
    rcases hc : found site d token with e | _ | c
    · show markupIn site d token = .error e
      rw [markupIn, hc]
    · have hr : markupIn site d token = .ok none := by rw [markupIn, hc]
      exact ⟨hi.put hr hi.used, hr⟩
    · simp only
      cases hs : textIn d c.markup with
      | error e =>
        show markupIn site d token = .error e
        rw [markupIn, hc]
        simp only [hs]
        rfl
      | ok s =>
        have hr : markupIn site d token = .ok (some s) := by
          rw [markupIn, hc]
          simp only [hs]
          rfl
        refine ⟨hi.put hr fun c' hc' => ?_, hr⟩
        rcases List.mem_append.1 hc' with hc' | hc'
        · exact hi.used c' hc'
        · rw [List.mem_singleton.1 hc', (of_found hc).1]
          exact ⟨hc, hmay⟩

/-! ## References -/

/-- What takes the place of a reference in a text that is expanded under a stack. -/
def replacementOf (site : Site) (tree : Variables) (depth : Nat) (stack : List Text) (raw : Text) :
    Injecting Text := do
  let token := Text.trim raw
  if List.elem token stack then throw (.componentCycle (stack ++ [token]))
  match ← markupOf site token with
  | none => return []
  | some markup =>
    let inner ← expand site tree depth (stack ++ [token]) markup
    let rendered ← (Reading.ofExcept .badIndex (Variable.render inner tree) : Reading _)
    return Text.trim rendered

theorem replacementOf_of_mem {tree : Variables} {depth : Nat} {stack : List Text} {raw : Text}
    (h : Text.trim raw ∈ stack) :
    replacementOf site tree depth stack raw = throw (.componentCycle (stack ++ [Text.trim raw])) := by
  unfold replacementOf
  simp only
  rw [if_pos (List.elem_iff.2 h)]
  rfl

theorem replacementOf_of_not_mem {tree : Variables} {depth : Nat} {stack : List Text} {raw : Text}
    (h : Text.trim raw ∉ stack) :
    replacementOf site tree depth stack raw = do
      match ← markupOf site (Text.trim raw) with
      | none => return []
      | some markup =>
        let inner ← expand site tree depth (stack ++ [Text.trim raw]) markup
        let rendered ← (Reading.ofExcept .badIndex (Variable.render inner tree) : Reading _)
        return Text.trim rendered := by
  unfold replacementOf
  simp only
  rw [if_neg fun helem => h (List.elem_iff.1 helem)]

/-- An expansion replaces the references from left to right. -/
theorem expand_succ (tree : Variables) (depth : Nat) (stack : List Text) (s : Text) :
    expand site tree (depth + 1) stack s = do
      let texts ← (references site s).mapM (replacementOf site tree depth stack)
      return Scan.fill [] (Scan.scan (reference site.componentNamespace) s) texts := by
  rw [references, Scan.marks_eq, List.mapM_map]
  rfl

theorem trim_mem_tokens {s raw : Text} (h : raw ∈ references site s) :
    Text.trim raw ∈ tokens site s :=
  List.mem_map_of_mem h

theorem Ensures.replacementOf {tree : Variables} {depth : Nat} {stack : List Text} {raw : Text}
    {post : Text → Prop} (hmay : may (Text.trim raw))
    (hcycle : Text.trim raw ∈ stack → fails (.componentCycle (stack ++ [Text.trim raw])))
    (hread : ∀ e, markupIn site d (Text.trim raw) = .error e → fails e)
    (hindex : ∀ b, fails (.badIndex b))
    (hmissing : Text.trim raw ∉ stack → markupIn site d (Text.trim raw) = .ok none → post [])
    (hinner : Text.trim raw ∉ stack → ∀ m, markupIn site d (Text.trim raw) = .ok (some m) →
      Ensures d (Known site d may) (Component.expand site tree depth (stack ++ [Text.trim raw]) m)
        (fun inner => ∀ s, Variable.render inner tree = .ok s → post (Text.trim s)) fails) :
    Ensures d (Known site d may) (Component.replacementOf site tree depth stack raw) post fails := by
  by_cases hmem : Text.trim raw ∈ stack
  · rw [replacementOf_of_mem hmem]
    exact Ensures.throw (hcycle hmem)
  · rw [replacementOf_of_not_mem hmem]
    refine ((Ensures.markupOf hmay).mono (fun _ h => h) hread).bind fun r hr => ?_
    match r, hr with
    | none, hr => exact Ensures.pure (hmissing hmem hr)
    | some m, hr =>
      refine (hinner hmem m hr).bind fun inner hpost => ?_
      intro i l hi
      rw [runOn_bind, runOn_lift, Reading.outcome_ofExcept]
      cases hs : Variable.render inner tree with
      | error b => exact hindex b
      | ok s => exact ⟨hi, hpost s hs⟩

theorem Ensures.expand_succ {I : Injection → Prop} {tree : Variables} {depth : Nat} {stack : List Text} {s : Text}
    {post : Text → Text → Prop}
    (h : ∀ raw ∈ references site s,
      Ensures d I (Component.replacementOf site tree depth stack raw) (post raw) fails) :
    Ensures d I (Component.expand site tree (depth + 1) stack s)
      (fun out => ∃ texts, List.Forall₂ post (references site s) texts ∧
        out = Scan.fill [] (Scan.scan (reference site.componentNamespace) s) texts) fails := by
  rw [Component.expand_succ]
  exact (Ensures.mapM h).bind fun texts htexts => Ensures.pure ⟨texts, htexts, rfl⟩

/-- Whatever becomes of an expansion, what is known stays right. -/
theorem Ensures.expand (tree : Variables) (depth : Nat) (stack : List Text) (s : Text) :
    Ensures d (Known site d Anything) (Component.expand site tree depth stack s) (fun _ => True)
      (fun _ => True) := by
  induction depth generalizing stack s with
  | zero => exact Ensures.throw trivial
  | succ depth ih =>
    have hraw : ∀ raw ∈ references site s,
        Ensures d (Known site d Anything) (Component.replacementOf site tree depth stack raw)
          (fun _ => True) (fun _ => True) := fun raw _ =>
      Ensures.replacementOf trivial (fun _ => trivial) (fun _ _ => trivial) (fun _ => trivial)
        (fun _ _ => trivial) fun _ m _ => (ih _ m).mono (fun _ _ _ _ => trivial) fun _ h => h
    exact (Ensures.expand_succ hraw).mono (fun _ _ => trivial) fun _ h => h

/-! ## Two expansions -/

/-- Two disks hold the same component, with the same markup, for a token. -/
def Agree (site : Site) (d d' : Disk) (token : Text) : Prop :=
  found site d' token = found site d token ∧
    ∀ c, found site d token = .ok (some c) → textIn d' c.markup = textIn d c.markup

theorem Agree.markupIn_eq {token : Text} (h : Agree site d d' token) :
    markupIn site d' token = markupIn site d token := by
  rw [markupIn, markupIn, h.1]
  rcases hc : found site d token with e | _ | c
  · rfl
  · rfl
  · simp only [h.2 c hc]

theorem Same.markupOf {token : Text} (h : Agree site d d' token) :
    Same d d' (Known site d Anything) (markupOf site token) (markupOf site token) := by
  intro i l _
  rw [runOn_markupOf, runOn_markupOf, h.1]
  rcases hc : found site d token with e | _ | c
  · rfl
  · rfl
  · simp only [h.2 c hc]

/-- Two expansions agree where the disks agree on what the page reaches, and where both bounds on nesting
are so large that no stack of distinct tokens uses them up. -/
theorem Same.expand {tree : Variables} {page : Text} {reached : Finset Text}
    (hall : ∀ t, Reaches site d page t → t ∈ reached)
    (hagree : ∀ t, Reaches site d page t → Agree site d d' t)
    {depth depth' : Nat} {stack : List Text} {s : Text} (halong : Along site d page stack s)
    (hdepth : reached.card < depth + stack.length) (hdepth' : reached.card < depth' + stack.length) :
    Same d d' (Known site d Anything) (Component.expand site tree depth stack s)
      (Component.expand site tree depth' stack s) := by
  -- on the first bound: the tokens of a stack are distinct, so the stack is full before a bound is used up
  induction depth generalizing depth' stack s with
  | zero =>
    have := halong.length_le hall
    omega
  | succ depth ih =>
    obtain ⟨depth', rfl⟩ : ∃ k, depth' = k + 1 := by
      have := halong.length_le hall
      exact ⟨depth' - 1, by omega⟩
    rw [Component.expand_succ, Component.expand_succ]
    have hensures : ∀ raw ∈ references site s,
        Ensures d (Known site d Anything) (Component.replacementOf site tree depth stack raw)
          (fun _ => True) (fun _ => True) := fun raw _ =>
      Ensures.replacementOf trivial (fun _ => trivial) (fun _ _ => trivial) (fun _ => trivial)
        (fun _ _ => trivial) fun _ m _ =>
          (Ensures.expand tree depth _ m).mono (fun _ _ _ _ => trivial) fun _ h => h
    refine Same.bind (Same.mapM (fun raw hraw => ?_) hensures) (Ensures.mapM hensures)
      fun texts _ => fun i l _ => rfl
    have hmem := trim_mem_tokens hraw
    have hreach := halong.reaches_of_mem.2 _ hmem
    by_cases hstack : Text.trim raw ∈ stack
    · rw [replacementOf_of_mem hstack, replacementOf_of_mem hstack]
      exact fun i l _ => rfl
    · rw [replacementOf_of_not_mem hstack, replacementOf_of_not_mem hstack]
      refine (Same.markupOf (hagree _ hreach)).bind (Ensures.markupOf trivial) fun r hr => ?_
      match r, hr with
      | none, _ => exact fun i l _ => rfl
      | some m, hr =>
        have hnext := halong.step hmem hstack hr
        have hlen : (stack ++ [Text.trim raw]).length = stack.length + 1 := by
          rw [List.length_append, List.length_singleton]
        refine (ih hnext (by rw [hlen]; omega) (by rw [hlen]; omega)).bind
          (Ensures.expand tree depth _ m) fun inner _ => ?_
        intro i l _
        rw [runOn_bind, runOn_bind, runOn_lift, runOn_lift, Reading.outcome_ofExcept,
          Reading.outcome_ofExcept]
        cases Variable.render inner tree <;> rfl

end Sitewright.Component
