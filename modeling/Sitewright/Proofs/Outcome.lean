import Mathlib
import Sitewright.Job
/-!
# Outcomes of jobs

A reading job is a function of a disk and a log, a working job one of a workspace. This file says what
each building block of a job gives, so that a job can be followed from its first step to its last.
A sequence goes on from where its first part ended, and stops where that part failed.
-/
set_option autoImplicit false

namespace Sitewright

variable {α β ε : Type}

/-! ## Results -/

theorem ok_of_bind {x : Except ε α} {f : α → Except ε β} {b : β} (h : x >>= f = .ok b) :
    ∃ a, x = .ok a ∧ f a = .ok b := by
  cases x with
  | error e => cases h
  | ok a => exact ⟨a, rfl, h⟩

theorem error_of_bind {x : Except ε α} {f : α → Except ε β} {e : ε} (h : x >>= f = .error e) :
    x = .error e ∨ ∃ a, x = .ok a ∧ f a = .error e := by
  cases x with
  | error e' =>
    cases h
    exact .inl rfl
  | ok a => exact .inr ⟨a, rfl, h⟩

theorem ok_of_map {x : Except ε α} {f : α → β} {b : β} (h : x.map f = .ok b) :
    ∃ a, f a = b := by
  cases x with
  | error e => cases h
  | ok a => exact ⟨a, Except.ok.inj h⟩

/-! ## Reading -/

namespace Reading

theorem outcome_pure (a : α) (d : Disk) (l : Log) :
    outcome (pure a : Reading α) d l = (.ok a, l) := rfl

theorem outcome_throw (e : Failure) (d : Disk) (l : Log) :
    outcome (throw e : Reading α) d l = (.error e, l) := rfl

theorem outcome_bind (x : Reading α) (f : α → Reading β) (d : Disk) (l : Log) :
    outcome (x >>= f) d l =
      match outcome x d l with
      | (.ok a, l') => outcome (f a) d l'
      | (.error e, l') => (.error e, l') := by
  have hbind : outcome (x >>= f) d l =
      (ExceptT.bindCont (fun a => f a d) (outcome x d l).1).run (outcome x d l).2 := rfl
  rw [hbind]
  rcases outcome x d l with ⟨r, l'⟩
  cases r <;> rfl

theorem outcome_read (d : Disk) (l : Log) : outcome (read : Reading Disk) d l = (.ok d, l) := rfl

theorem outcome_attempt (x : Reading α) (d : Disk) (l : Log) :
    outcome (attempt x) d l = (.ok (outcome x d l).1, (outcome x d l).2) := rfl

theorem outcome_ofExcept (cause : ε → Failure) (r : Except ε α) (d : Disk) (l : Log) :
    outcome (ofExcept cause r) d l = (r.mapError cause, l) := by
  cases r <;> rfl

theorem outcome_ask (question : Disk → Except FileProblem α) (d : Disk) (l : Log) :
    outcome (ask question) d l = ((question d).mapError .file, l) := by
  unfold ask
  rw [outcome_bind, outcome_read]
  cases h : question d <;> simp only [h] <;> rfl

def textIn (d : Disk) (path : Path) : Except Failure Text :=
  match d.readBytes path with
  | .ok bytes =>
    match Utf8.decode bytes with
    | .ok s => .ok (Newline.normalize s)
    | .error e => .error (.notUtf8 e)
  | .error e => .error (.file e)

theorem outcome_textOf (path : Path) (d : Disk) (l : Log) :
    outcome (textOf path) d l = (textIn d path, l) := by
  unfold textOf textIn
  rw [outcome_bind, outcome_ask]
  cases hb : d.readBytes path with
  | error e => rfl
  | ok bytes =>
    simp only [Except.mapError]
    cases hs : Utf8.decode bytes <;> rfl

theorem mapError_eq_ok {ε' : Type} {f : ε → ε'} {x : Except ε α} {a : α}
    (h : x.mapError f = .ok a) : x = .ok a := by
  cases x with
  | error e => cases h
  | ok b =>
    cases h
    rfl

theorem eq_ok_of_toOption {x : Except ε α} {a : α} (h : x.toOption = some a) : x = .ok a := by
  cases x with
  | error e => cases h
  | ok b => exact congrArg Except.ok (Option.some.inj h)

theorem outcome_bind_eq {d : Disk} {l : Log} {x : Reading α} {f : α → Reading β}
    {r : Except Failure α} {g : α → Except Failure β} (hx : outcome x d l = (r, l))
    (hf : ∀ a, outcome (f a) d l = (g a, l)) : outcome (x >>= f) d l = (r >>= g, l) := by
  rw [outcome_bind, hx]
  cases r with
  | error e => rfl
  | ok a => exact hf a

theorem exists_of_bind_ok {d : Disk} {x : Reading α} {f : α → Reading β} {l : Log} {b : β}
    (h : (outcome (x >>= f) d l).1 = .ok b) :
    ∃ a l', outcome x d l = (.ok a, l') ∧ (outcome (f a) d l').1 = .ok b := by
  rw [Reading.outcome_bind] at h
  rcases hx : outcome x d l with ⟨_ | a, l'⟩
  · rw [hx] at h
    cases h
  · rw [hx] at h
    exact ⟨a, l', rfl, h⟩

theorem bind_ok {d : Disk} {x : Reading α} {f : α → Reading β} {l : Log} {a : α} {b : β}
    (hx : (outcome x d l).1 = .ok a) (hf : ∀ l', (outcome (f a) d l').1 = .ok b) :
    (outcome (x >>= f) d l).1 = .ok b := by
  rw [Reading.outcome_bind]
  rcases hrun : outcome x d l with ⟨r, l'⟩
  rw [hrun] at hx
  cases hx
  exact hf l'

theorem outcome_bind_congr {d d' : Disk} {x : Reading α} {f : α → Reading β}
    (hx : ∀ l, outcome x d' l = outcome x d l)
    (hf : ∀ a, (∃ l l', outcome x d l = (.ok a, l')) → ∀ l, outcome (f a) d' l = outcome (f a) d l) (l : Log) :
    outcome (x >>= f) d' l = outcome (x >>= f) d l := by
  rw [outcome_bind, outcome_bind, hx l]
  rcases hrun : outcome x d l with ⟨_ | a, l'⟩
  · rfl
  · exact hf a ⟨l, l', hrun⟩ l'

theorem outcome_ask_congr {d d' : Disk} {question : Disk → Except FileProblem α}
    (h : question d' = question d) (l : Log) : outcome (ask question) d' l = outcome (ask question) d l := by
  rw [outcome_ask, outcome_ask, h]

/-- A reading job notes nothing on a disk, and what has been noted makes no difference to it. -/
def Silent (d : Disk) (x : Reading α) : Prop := ∀ l, outcome x d l = ((outcome x d []).1, l)

theorem Silent.bind {d : Disk} {x : Reading α} {f : α → Reading β} (hx : Silent d x) (hf : ∀ a, Silent d (f a)) :
    Silent d (x >>= f) := by
  intro l
  have hstart : outcome x d [] = ((outcome x d []).1, []) := hx []
  rw [outcome_bind, outcome_bind, hx l, hstart]
  cases (outcome x d []).1 with
  | error e => rfl
  | ok a => exact hf a l

theorem Silent.mapM {d : Disk} {f : α → Reading β} {xs : List α} (h : ∀ x ∈ xs, Silent d (f x)) :
    Silent d (xs.mapM f) := by
  induction xs with
  | nil => exact fun _ => rfl
  | cons x xs ih =>
    rw [List.mapM_cons]
    have hrest := ih fun y hy => h y (List.mem_cons_of_mem x hy)
    exact (h x List.mem_cons_self).bind fun _ => hrest.bind fun _ _ => rfl

theorem silent_textOf (path : Path) (d : Disk) : Silent d (textOf path) := by
  intro l
  rw [outcome_textOf, outcome_textOf]

theorem outcome_mapM_congr {d d' : Disk} {f : α → Reading β} {xs : List α}
    (h : ∀ x ∈ xs, ∀ l, outcome (f x) d' l = outcome (f x) d l) (l : Log) :
    outcome (xs.mapM f) d' l = outcome (xs.mapM f) d l := by
  induction xs generalizing l with
  | nil => rfl
  | cons x xs ih =>
    rw [List.mapM_cons]
    have hrest := ih fun y hy => h y (List.mem_cons_of_mem x hy)
    refine outcome_bind_congr (h x List.mem_cons_self) (fun y _ l => ?_) l
    exact outcome_bind_congr hrest (fun _ _ _ => rfl) l

theorem outcome_filterMapM_congr {d d' : Disk} {f : α → Reading (Option β)} {xs : List α}
    (h : ∀ x ∈ xs, ∀ l, outcome (f x) d' l = outcome (f x) d l) (l : Log) :
    outcome (xs.filterMapM f) d' l = outcome (xs.filterMapM f) d l := by
  have hloop : ∀ (ys : List β) (l : Log), outcome (List.filterMapM.loop f xs ys) d' l =
      outcome (List.filterMapM.loop f xs ys) d l := by
    induction xs with
    | nil => exact fun ys l => rfl
    | cons x xs ih =>
      intro ys l
      have hrest := ih fun y hy => h y (List.mem_cons_of_mem x hy)
      rw [List.filterMapM.loop]
      refine outcome_bind_congr (h x List.mem_cons_self) (fun r _ l => ?_) l
      cases r with
      | none => exact hrest ys l
      | some y => exact hrest (y :: ys) l
  exact hloop [] l

/-- Where each item of a list is read alike whatever has been noted, so is the list. -/
theorem outcome_filterMapM_ok {d : Disk} {f : α → Reading (Option β)} {g : α → Option β}
    {xs : List α} (h : ∀ x ∈ xs, ∀ l, outcome (f x) d l = (.ok (g x), l)) (l : Log) :
    outcome (xs.filterMapM f) d l = (.ok (xs.filterMap g), l) := by
  have hloop : ∀ ys : List β, outcome (List.filterMapM.loop f xs ys) d l = (.ok (ys.reverse ++ xs.filterMap g), l) := by
    induction xs with
    | nil =>
      intro ys
      rw [List.filterMap_nil, List.append_nil]
      rfl
    | cons x xs ih =>
      intro ys
      have hrest := ih fun y hy => h y (List.mem_cons_of_mem x hy)
      rw [List.filterMapM.loop, outcome_bind, h x List.mem_cons_self, List.filterMap_cons]
      cases g x with
      | none => exact hrest ys
      | some y => exact (hrest (y :: ys)).trans (by simp)
  exact hloop []

theorem mem_of_filterMapM_loop {d : Disk} {f : α → Reading (Option β)} {xs : List α} {ys zs : List β}
    {l : Log} (h : (outcome (List.filterMapM.loop f xs zs) d l).1 = .ok ys) :
    ∀ y ∈ ys, y ∈ zs ∨ ∃ x ∈ xs, ∃ l', (outcome (f x) d l').1 = .ok (some y) := by
  induction xs generalizing zs l with
  | nil =>
    intro y hy
    cases h
    exact .inl (List.mem_reverse.1 hy)
  | cons x xs ih =>
    intro y hy
    rw [List.filterMapM.loop] at h
    obtain ⟨r, l', hr, hrest⟩ := exists_of_bind_ok h
    have hlater : (∃ x' ∈ xs, ∃ l'', (outcome (f x') d l'').1 = .ok (some y)) →
        ∃ x' ∈ x :: xs, ∃ l'', (outcome (f x') d l'').1 = .ok (some y) := by
      rintro ⟨x', hx', hmade⟩
      exact ⟨x', List.mem_cons_of_mem x hx', hmade⟩
    cases r with
    | none => exact (ih hrest y hy).imp_right hlater
    | some z =>
      rcases ih hrest y hy with hmem | hmade
      · rcases List.mem_cons.1 hmem with rfl | hmem
        · exact .inr ⟨x, List.mem_cons_self, l, by rw [hr]⟩
        · exact .inl hmem
      · exact .inr (hlater hmade)

theorem mem_of_filterMapM {d : Disk} {f : α → Reading (Option β)} {xs : List α} {ys : List β} {l : Log}
    (h : (outcome (xs.filterMapM f) d l).1 = .ok ys) :
    ∀ y ∈ ys, ∃ x ∈ xs, ∃ l', (outcome (f x) d l').1 = .ok (some y) :=
  fun y hy => (mem_of_filterMapM_loop h y hy).resolve_left List.not_mem_nil

end Reading

/-! ## Working -/

namespace Job

/-- The result of a working job on a workspace, and the workspace that it leaves. -/
def outcome (job : Job α) (w : Workspace) : Except Failure α × Workspace := job.run w

theorem outcome_eq_of_toOption {job : Job α} {w : Workspace} {a : α} (h : (outcome job w).1.toOption = some a) :
    outcome job w = (.ok a, (outcome job w).2) := Prod.ext (Reading.eq_ok_of_toOption h) rfl

theorem outcome_pure (a : α) (w : Workspace) : outcome (pure a : Job α) w = (.ok a, w) := rfl

theorem outcome_throw (e : Failure) (w : Workspace) :
    outcome (throw e : Job α) w = (.error e, w) := rfl

theorem outcome_bind (x : Job α) (f : α → Job β) (w : Workspace) :
    outcome (x >>= f) w =
      match outcome x w with
      | (.ok a, w') => outcome (f a) w'
      | (.error e, w') => (.error e, w') := by
  have hbind : outcome (x >>= f) w = (ExceptT.bindCont f (outcome x w).1).run (outcome x w).2 := rfl
  rw [hbind]
  rcases outcome x w with ⟨r, w'⟩
  cases r <;> rfl

theorem exists_of_bind_ok {x : Job α} {f : α → Job β} {w w' : Workspace} {b : β}
    (h : outcome (x >>= f) w = (.ok b, w')) :
    ∃ a v, outcome x w = (.ok a, v) ∧ outcome (f a) v = (.ok b, w') := by
  rw [outcome_bind] at h
  rcases hx : outcome x w with ⟨_ | a, v⟩
  · rw [hx] at h
    cases h
  · rw [hx] at h
    exact ⟨a, v, rfl, h⟩

theorem outcome_get (w : Workspace) : outcome (get : Job Workspace) w = (.ok w, w) := rfl

theorem outcome_look (x : Reading α) (w : Workspace) :
    outcome (look x) w =
      ((x.outcome w.disk w.log).1, { w with log := (x.outcome w.disk w.log).2 }) := rfl

theorem outcome_ask (question : Disk → Except FileProblem α) (w : Workspace) :
    outcome (ask question) w = ((question w.disk).mapError .file, w) := by
  unfold ask
  rw [outcome_look, Reading.outcome_ask]

theorem outcome_note (level : Level) (s : Text) (w : Workspace) :
    outcome (note level s) w = (.ok (), { w with log := w.log ++ [⟨level, s⟩] }) := rfl

theorem outcome_textOf (path : Path) (w : Workspace) :
    outcome (textOf path) w = (Reading.textIn w.disk path, w) := by
  unfold textOf
  rw [outcome_look, Reading.outcome_textOf]

theorem outcome_ofExcept (r : Except Failure α) (w : Workspace) :
    outcome (ofExcept r) w = (r, w) := by
  cases r <;> rfl

theorem outcome_change (step : Disk → Except FileProblem Disk) (w : Workspace) :
    outcome (change step) w =
      match step w.disk with
      | .ok d => (.ok (), { w with disk := d })
      | .error e => (.error (.file e), w) := by
  unfold change
  rw [outcome_bind, outcome_get]
  cases h : step w.disk <;> simp only [h] <;> rfl

theorem outcome_changeBySteps (steps : Disk → Disk × Except FileProblem Unit) (w : Workspace) :
    outcome (changeBySteps steps) w =
      ((steps w.disk).2.mapError .file, { w with disk := (steps w.disk).1 }) := by
  unfold changeBySteps
  rw [outcome_bind, outcome_get]
  rcases h : steps w.disk with ⟨d, r⟩
  cases r <;> simp only [h] <;> rfl

theorem outcome_attempt (x : Job α) (w : Workspace) :
    outcome (attempt x) w = (.ok (outcome x w).1, (outcome x w).2) := rfl

theorem outcome_andFinally (x : Job α) (last : Except Failure α → Job Unit) (w : Workspace) :
    outcome (andFinally x last) w =
      match outcome (last (outcome x w).1) (outcome x w).2 with
      | (.ok (), v) => ((outcome x w).1, v)
      | (.error e, v) => (.error e, v) := by
  unfold andFinally
  rw [outcome_bind, outcome_attempt]
  simp only
  rw [outcome_bind]
  rcases outcome x w with ⟨r, v⟩
  rcases outcome (last r) v with ⟨q, v'⟩
  cases q <;> cases r <;> rfl

/-! ## What a job keeps -/

/-- A property of the disk that holds before a job holds after it, whatever becomes of the job. -/
def Keeps (I : Disk → Prop) (job : Job α) : Prop := ∀ w, I w.disk → I (outcome job w).2.disk

variable {I : Disk → Prop}

theorem Keeps.pure (a : α) : Keeps I (pure a : Job α) := fun _ h => h

theorem Keeps.throw (e : Failure) : Keeps I (throw e : Job α) := fun _ h => h

theorem Keeps.bind {β : Type} {x : Job α} {f : α → Job β} (hx : Keeps I x) (hf : ∀ a, Keeps I (f a)) :
    Keeps I (x >>= f) := by
  intro w h
  have hw := hx w h
  rw [outcome_bind]
  rcases hrun : outcome x w with ⟨r, v⟩
  rw [hrun] at hw
  cases r with
  | error e => exact hw
  | ok a => exact hf a v hw

theorem Keeps.look (x : Reading α) : Keeps I (look x) := fun _ h => h

theorem Keeps.ask (question : Disk → Except FileProblem α) : Keeps I (ask question) := .look _

theorem Keeps.note (level : Level) (s : Text) : Keeps I (note level s) := .look _

theorem Keeps.ofExcept (r : Except Failure α) : Keeps I (ofExcept r) := by
  cases r with
  | error e => exact .throw e
  | ok a => exact .pure a

theorem Keeps.change {step : Disk → Except FileProblem Disk} (h : ∀ d d', step d = .ok d' → I d → I d') :
    Keeps I (change step) := by
  intro w hw
  rw [outcome_change]
  cases hs : step w.disk with
  | error e => exact hw
  | ok d => exact h _ _ hs hw

theorem Keeps.changeBySteps {steps : Disk → Disk × Except FileProblem Unit} (h : ∀ d, I d → I (steps d).1) :
    Keeps I (changeBySteps steps) := by
  intro w hw
  rw [outcome_changeBySteps]
  exact h _ hw

theorem Keeps.mapM {β : Type} {f : α → Job β} {xs : List α} (h : ∀ x ∈ xs, Keeps I (f x)) :
    Keeps I (xs.mapM f) := by
  induction xs with
  | nil => exact .pure []
  | cons x xs ih =>
    rw [List.mapM_cons]
    refine (h x List.mem_cons_self).bind fun y => ?_
    refine (ih fun z hz => h z (List.mem_cons_of_mem x hz)).bind fun ys => ?_
    exact .pure _

end Job
end Sitewright
