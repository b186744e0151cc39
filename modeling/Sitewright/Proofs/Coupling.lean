import Sitewright.Proofs.Outcome
/-!
# Two runs of a job

A job is run on two disks that are related, with the same log. If each of its steps gives the same result on
related disks and leaves them related, so does the job. A property of one disk is the relation of that disk
to itself, so what is shown of two runs is shown of a single one too.

Main statements: a rule for each building block of a job (`Couples.bind`, `Couples.change`,
`Couples.andFinally`), and `Couples.keeps`.
-/
set_option autoImplicit false

namespace Sitewright

variable {α β σ : Type}

/-- Two workspaces with the same log and related disks. -/
structure Workspace.Matches (R : Disk → Disk → Prop) (w v : Workspace) : Prop where
  log : w.log = v.log
  disk : R w.disk v.disk

/-- A disk with a property, and itself. -/
def Disk.Twin (I : Disk → Prop) (d d' : Disk) : Prop := d = d' ∧ I d

/-- Two related disks, of which the first has a property. -/
def Disk.Guarded (R : Disk → Disk → Prop) (I : Disk → Prop) (d d' : Disk) : Prop := R d d' ∧ I d

namespace Job

open Workspace (Matches)

/-- A job gives the same result on related disks, and leaves related disks. -/
def Couples (R : Disk → Disk → Prop) (job : Job α) : Prop :=
  ∀ w v, Matches R w v →
    (outcome job w).1 = (outcome job v).1 ∧ Matches R (outcome job w).2 (outcome job v).2

variable {R : Disk → Disk → Prop}

theorem Couples.pure (a : α) : Couples R (pure a : Job α) := fun _ _ h => ⟨rfl, h⟩

theorem Couples.throw (e : Failure) : Couples R (throw e : Job α) := fun _ _ h => ⟨rfl, h⟩

theorem Couples.get_bind {f : Workspace → Job α}
    (h : ∀ w v, Matches R w v →
      (outcome (f w) w).1 = (outcome (f v) v).1 ∧ Matches R (outcome (f w) w).2 (outcome (f v) v).2) :
    Couples R (get >>= f) := by
  intro w v hwv
  rw [outcome_bind, outcome_bind, outcome_get, outcome_get]
  exact h w v hwv

/-- What comes after is needed only for results of the first part. -/
theorem Couples.bind_of {x : Job α} {f : α → Job β} (hx : Couples R x)
    (hf : ∀ a w v w', Matches R w v → outcome x w = (.ok a, w') → Couples R (f a)) :
    Couples R (x >>= f) := by
  intro w v h
  obtain ⟨hresult, hmatch⟩ := hx w v h
  rw [outcome_bind, outcome_bind]
  rcases hw : outcome x w with ⟨r, w'⟩
  rcases hv : outcome x v with ⟨q, v'⟩
  rw [hw, hv] at hresult hmatch
  simp only at hresult hmatch
  subst hresult
  cases r with
  | error e => exact ⟨rfl, hmatch⟩
  | ok a => exact hf a w v w' h hw w' v' hmatch

theorem Couples.bind {x : Job α} {f : α → Job β} (hx : Couples R x) (hf : ∀ a, Couples R (f a)) :
    Couples R (x >>= f) := hx.bind_of fun a _ _ _ _ _ => hf a

theorem Couples.look {x : Reading α} (h : ∀ d d' l, R d d' → x.outcome d l = x.outcome d' l) :
    Couples R (look x) := by
  intro w v hwv
  rw [outcome_look, outcome_look, ← hwv.log, h w.disk v.disk w.log hwv.disk]
  exact ⟨rfl, rfl, hwv.disk⟩

theorem Couples.ask {question : Disk → Except FileProblem α}
    (h : ∀ d d', R d d' → question d = question d') : Couples R (ask question) := by
  refine Couples.look fun d d' l hd => ?_
  rw [Reading.outcome_ask, Reading.outcome_ask, h d d' hd]

theorem Couples.note (level : Level) (s : Text) : Couples R (note level s) :=
  Couples.look fun _ _ _ _ => rfl

theorem Couples.ofExcept (r : Except Failure α) : Couples R (ofExcept r) := by
  cases r with
  | error e => exact .throw e
  | ok a => exact .pure a

theorem Couples.textOf {path : Path} (h : ∀ d d', R d d' → d.readBytes path = d'.readBytes path) :
    Couples R (textOf path) := by
  refine Couples.look fun d d' l hd => ?_
  rw [Reading.outcome_textOf, Reading.outcome_textOf, Reading.textIn, Reading.textIn, h d d' hd]

/-- Steps that end alike: both fail in the same way, or both leave a disk, and these are related. -/
inductive EndAlike (R : Disk → Disk → Prop) : Except FileProblem Disk → Except FileProblem Disk → Prop where
  | error (e : FileProblem) : EndAlike R (.error e) (.error e)
  | ok {d d' : Disk} (h : R d d') : EndAlike R (.ok d) (.ok d')

theorem EndAlike.mono {r q : Except FileProblem Disk} {R' : Disk → Disk → Prop} (h : EndAlike R r q)
    (hR : ∀ d d', R d d' → R' d d') : EndAlike R' r q := by
  cases h with
  | error e => exact .error e
  | ok hd => exact .ok (hR _ _ hd)

theorem Couples.change {step : Disk → Except FileProblem Disk}
    (h : ∀ d d', R d d' → EndAlike R (step d) (step d')) : Couples R (change step) := by
  intro w v hwv
  have hstep := h w.disk v.disk hwv.disk
  rw [outcome_change, outcome_change]
  generalize step w.disk = r at hstep ⊢
  generalize step v.disk = q at hstep ⊢
  cases hstep with
  | error e => exact ⟨rfl, hwv⟩
  | ok hd => exact ⟨rfl, hwv.log, hd⟩

theorem Couples.changeBySteps {steps : Disk → Disk × Except FileProblem Unit}
    (h : ∀ d d', R d d' → (steps d).2 = (steps d').2 ∧ R (steps d).1 (steps d').1) :
    Couples R (changeBySteps steps) := by
  intro w v hwv
  obtain ⟨hresult, hdisk⟩ := h w.disk v.disk hwv.disk
  rw [outcome_changeBySteps, outcome_changeBySteps, hresult]
  exact ⟨rfl, hwv.log, hdisk⟩

theorem Couples.attempt {x : Job α} (h : Couples R x) : Couples R (attempt x) := by
  intro w v hwv
  obtain ⟨hresult, hmatch⟩ := h w v hwv
  rw [outcome_attempt, outcome_attempt, hresult]
  exact ⟨rfl, hmatch⟩

theorem Couples.andFinally {x : Job α} {last : Except Failure α → Job Unit} (hx : Couples R x)
    (hlast : ∀ r, Couples R (last r)) : Couples R (andFinally x last) := by
  refine (hx.attempt).bind fun r => (hlast r).bind fun _ => ?_
  cases r with
  | error e => exact .throw e
  | ok a => exact .pure a

theorem Couples.mapM {f : α → Job β} {xs : List α} (h : ∀ x ∈ xs, Couples R (f x)) :
    Couples R (xs.mapM f) := by
  induction xs with
  | nil => exact .pure []
  | cons x xs ih =>
    rw [List.mapM_cons]
    refine (h x List.mem_cons_self).bind fun y => ?_
    refine (ih fun z hz => h z (List.mem_cons_of_mem x hz)).bind fun ys => ?_
    exact .pure _

theorem Couples.forM {f : α → Job PUnit} {xs : List α} (h : ∀ x ∈ xs, Couples R (f x)) :
    Couples R (xs.forM f) := by
  induction xs with
  | nil => exact Couples.pure PUnit.unit
  | cons x xs ih =>
    have hrest := ih fun z hz => h z (List.mem_cons_of_mem x hz)
    exact (h x List.mem_cons_self).bind fun _ => hrest

/-! ## Two runs that draw closer -/

/-- A job couples, and where it succeeds it leaves disks that are related more closely. -/
structure CouplesTo (R R' : Disk → Disk → Prop) (job : Job α) : Prop where
  couples : Couples R job
  success : ∀ w v w' a, Matches R w v → outcome job w = (.ok a, w') → Matches R' w' (outcome job v).2

variable {R' R'' : Disk → Disk → Prop}

theorem Couples.closer {job : Job α} (h : Couples R job) : CouplesTo R R job := by
  refine ⟨h, fun w v w' a hwv hrun => ?_⟩
  have hmatch := (h w v hwv).2
  rw [hrun] at hmatch
  exact hmatch

theorem CouplesTo.pure (hR : ∀ d d', R d d' → R' d d') (a : α) : CouplesTo R R' (pure a : Job α) := by
  refine ⟨.pure a, fun w v w' b hwv hrun => ?_⟩
  cases hrun
  exact ⟨hwv.log, hR _ _ hwv.disk⟩

theorem CouplesTo.change {step : Disk → Except FileProblem Disk} (hR : ∀ d d', R' d d' → R d d')
    (h : ∀ d d', R d d' → EndAlike R' (step d) (step d')) : CouplesTo R R' (change step) := by
  refine ⟨.change fun d d' hd => (h d d' hd).mono hR, fun w v w' u hwv hrun => ?_⟩
  have hstep := h w.disk v.disk hwv.disk
  rw [outcome_change] at hrun ⊢
  generalize step w.disk = r at hstep hrun
  generalize step v.disk = q at hstep
  cases hstep with
  | error e => cases hrun
  | ok hd =>
    cases hrun
    exact ⟨hwv.log, hd⟩

/-- What comes after is needed only for results of the first part. -/
theorem CouplesTo.bind_of {x : Job α} {f : α → Job β} (hx : CouplesTo R R' x) (hR : ∀ d d', R' d d' → R d d')
    (hf : ∀ a w v w', Matches R w v → outcome x w = (.ok a, w') → CouplesTo R' R'' (f a)) :
    CouplesTo R R'' (x >>= f) := by
  constructor
  · intro w v hwv
    obtain ⟨hresult, hmatch⟩ := hx.couples w v hwv
    rw [outcome_bind, outcome_bind]
    rcases hw : outcome x w with ⟨r, w'⟩
    rcases hv : outcome x v with ⟨q, v'⟩
    rw [hw, hv] at hresult hmatch
    simp only at hresult hmatch
    subst hresult
    cases r with
    | error e => exact ⟨rfl, hmatch⟩
    | ok a =>
      have hclose := hx.success w v w' a hwv hw
      rw [hv] at hclose
      obtain ⟨hsame, hend⟩ := (hf a w v w' hwv hw).couples w' v' hclose
      exact ⟨hsame, hend.log, hR _ _ hend.disk⟩
  · intro w v w'' b hwv hrun
    obtain ⟨a, w', hw, hlast⟩ := exists_of_bind_ok hrun
    obtain ⟨hresult, -⟩ := hx.couples w v hwv
    have hclose := hx.success w v w' a hwv hw
    rw [outcome_bind]
    rcases hv : outcome x v with ⟨q, v'⟩
    rw [hw, hv] at hresult
    rw [hv] at hclose
    simp only at hresult hclose
    subst hresult
    exact (hf a w v w' hwv hw).success w' v' w'' b hclose hlast

theorem CouplesTo.bind {x : Job α} {f : α → Job β} (hx : CouplesTo R R' x) (hR : ∀ d d', R' d d' → R d d')
    (hf : ∀ a, CouplesTo R' R'' (f a)) : CouplesTo R R'' (x >>= f) :=
  hx.bind_of hR fun a _ _ _ _ _ => hf a

theorem CouplesTo.guarded {I : Disk → Prop} {job : Job α} (h : CouplesTo R R' job) (hI : Keeps I job) :
    CouplesTo (Disk.Guarded R I) (Disk.Guarded R' I) job := by
  constructor
  · intro w v hwv
    obtain ⟨hresult, hmatch⟩ := h.couples w v ⟨hwv.log, hwv.disk.1⟩
    exact ⟨hresult, hmatch.log, hmatch.disk, hI w hwv.disk.2⟩
  · intro w v w' a hwv hrun
    have hmatch := h.success w v w' a ⟨hwv.log, hwv.disk.1⟩ hrun
    have hkept := hI w hwv.disk.2
    rw [hrun] at hkept
    exact ⟨hmatch.log, hmatch.disk, hkept⟩

/-! ## Jobs with a state of their own -/

/-- Whatever its state, a job couples. -/
def CouplesFrom (R : Disk → Disk → Prop) (x : StateT σ Job α) : Prop := ∀ s, Couples R (x.run s)

theorem CouplesFrom.pure (a : α) : CouplesFrom R (pure a : StateT σ Job α) := fun _ => .pure _

theorem CouplesFrom.lift {x : Job α} (h : Couples R x) : CouplesFrom R (x : StateT σ Job α) :=
  fun _ => h.bind fun _ => .pure _

theorem CouplesFrom.bind {x : StateT σ Job α} {f : α → StateT σ Job β} (hx : CouplesFrom R x)
    (hf : ∀ a, CouplesFrom R (f a)) : CouplesFrom R (x >>= f) := fun s =>
  (hx s).bind fun r => hf r.1 r.2

theorem CouplesFrom.get : CouplesFrom R (get : StateT σ Job σ) := fun _ => .pure _

theorem CouplesFrom.modify (f : σ → σ) : CouplesFrom R (modify f : StateT σ Job PUnit) := fun _ => .pure _

theorem CouplesFrom.mapM {f : α → StateT σ Job β} {xs : List α} (h : ∀ x ∈ xs, CouplesFrom R (f x)) :
    CouplesFrom R (xs.mapM f) := by
  induction xs with
  | nil => exact .pure []
  | cons x xs ih =>
    rw [List.mapM_cons]
    refine (h x List.mem_cons_self).bind fun y => ?_
    refine (ih fun z hz => h z (List.mem_cons_of_mem x hz)).bind fun ys => ?_
    exact .pure _

/-! ## A single run -/

variable {I : Disk → Prop}

theorem Couples.keeps {job : Job α} (h : Couples (Disk.Twin I) job) : Keeps I job :=
  fun w hw => (h w w ⟨rfl, rfl, hw⟩).2.disk.2

theorem Keeps.couples {job : Job α} (h : Keeps I job) : Couples (Disk.Twin I) job := by
  rintro ⟨d, l⟩ ⟨d', l'⟩ ⟨hlog, hdisk, hI⟩
  simp only at hlog hdisk hI
  subst hlog hdisk
  exact ⟨rfl, rfl, rfl, h _ hI⟩

end Job
end Sitewright
