import Sitewright.Proofs.Outcome
/-!
# Going through a list

A build goes through lists: of pages, of references, of files. It makes something of each item in turn, and what
it makes of one item changes the state in which the next one is met.

* `Course step xs ys s t`: from the state `s` on the items `xs` are taken one after the other; this gives `ys` and
  leads to the state `t`.
* `Yields`: a job with a state of its own succeeds.

Main statements: what is established for an item holds at the end if the later items keep it
(`Course.establishes`), and a job that has gone through a list has taken such a course (`course_of_mapM`).
-/
set_option autoImplicit false

namespace Sitewright

variable {α β γ σ : Type}

/-- A course through a list of items. -/
inductive Course (step : α → β → σ → σ → Prop) : List α → List β → σ → σ → Prop
  | nil (s : σ) : Course step [] [] s s
  | cons {x : α} {y : β} {xs : List α} {ys : List β} {s t u : σ} (head : step x y s t)
      (tail : Course step xs ys t u) : Course step (x :: xs) (y :: ys) s u

namespace Course

variable {step : α → β → σ → σ → Prop} {xs : List α} {ys : List β} {s t : σ} {I : σ → Prop}

theorem keeps (h : Course step xs ys s t) (hstep : ∀ x ∈ xs, ∀ y s t, I s → step x y s t → I t) (hs : I s) :
    I t := by
  induction h with
  | nil s => exact hs
  | cons head tail ih =>
    exact ih (fun x hx => hstep x (List.mem_cons_of_mem _ hx)) (hstep _ List.mem_cons_self _ _ _ hs head)

theorem mono {step' : α → β → σ → σ → Prop} (h : Course step xs ys s t)
    (hstep : ∀ x y s t, step x y s t → step' x y s t) : Course step' xs ys s t := by
  induction h with
  | nil s => exact .nil s
  | cons head tail ih => exact .cons (hstep _ _ _ _ head) ih

theorem before_last {R : σ → σ → Prop} (hrefl : ∀ s, R s s) (htrans : ∀ s t u, R s t → R t u → R s u)
    (h : Course step xs ys s t) (hstep : ∀ x ∈ xs, ∀ y s t, step x y s t → R s t) :
    Course (fun x y s' t' => step x y s' t' ∧ R t' t) xs ys s t := by
  induction h with
  | nil s => exact .nil s
  | @cons x y xs ys s t u head tail ih =>
    have hsteps : ∀ x' ∈ xs, ∀ y s t, step x' y s t → R s t := fun x' hx' => hstep x' (List.mem_cons_of_mem x hx')
    have hrest : R t u := tail.keeps (I := R t)
      (fun x' hx' y v v' hv hrun => htrans _ _ _ hv (hsteps x' hx' y v v' hrun)) (hrefl t)
    exact .cons ⟨head, hrest⟩ (ih hsteps)

/-- What each item establishes holds at the end, if no later item undoes it. -/
theorem establishes (post : α → σ → Prop) (h : Course step xs ys s t)
    (hstep : ∀ x ∈ xs, ∀ y s t, I s → step x y s t → I t ∧ post x t)
    (hkeep : xs.Pairwise fun x x' => ∀ y s t, I s → post x s → step x' y s t → post x t) (hs : I s) :
    I t ∧ ∀ x ∈ xs, post x t := by
  induction h with
  | nil s => exact ⟨hs, fun x hx => absurd hx List.not_mem_nil⟩
  | @cons x y xs ys s t u head tail ih =>
    obtain ⟨hlater, hrest⟩ := List.pairwise_cons.1 hkeep
    have hsteps : ∀ x' ∈ xs, ∀ y s t, I s → step x' y s t → I t ∧ post x' t := fun x' hx' =>
      hstep x' (List.mem_cons_of_mem x hx')
    obtain ⟨ht, hfirst⟩ := hstep x List.mem_cons_self y s t hs head
    obtain ⟨hu, hposts⟩ := ih hsteps hrest ht
    have hlast : I u ∧ post x u := by
      refine tail.keeps (I := fun s => I s ∧ post x s) (fun x' hx' y' s t hs hrun => ?_) ⟨ht, hfirst⟩
      exact ⟨(hsteps x' hx' y' s t hs.1 hrun).1, hlater x' hx' y' s t hs.1 hs.2 hrun⟩
    refine ⟨hu, fun x' hx' => ?_⟩
    rcases List.mem_cons.1 hx' with rfl | hx'
    · exact hlast.2
    · exact hposts x' hx'

theorem each (post : α → σ → Prop) (h : Course step xs ys s t) (hnodup : xs.Nodup)
    (hstep : ∀ x ∈ xs, ∀ y s t, I s → step x y s t → I t ∧ post x t)
    (hkeep : ∀ x ∈ xs, ∀ x' ∈ xs, x' ≠ x → ∀ y s t, I s → post x s → step x' y s t → post x t) (hs : I s) :
    I t ∧ ∀ x ∈ xs, post x t :=
  h.establishes post hstep (hnodup.imp_of_mem fun hx hx' hne => hkeep _ hx _ hx' (Ne.symm hne)) hs

theorem map_eq {f : α → β} (h : Course step xs ys s t)
    (hstep : ∀ x ∈ xs, ∀ y s t, I s → step x y s t → I t ∧ y = f x) (hs : I s) : ys = xs.map f := by
  induction h with
  | nil s => rfl
  | cons head tail ih =>
    obtain ⟨ht, rfl⟩ := hstep _ List.mem_cons_self _ _ _ hs head
    rw [List.map_cons, ih (fun x hx => hstep x (List.mem_cons_of_mem _ hx)) ht]

end Course

namespace Job

/-! ## Steps that succeed -/

variable {w w' : Workspace}

theorem of_look_ok {x : Reading α} {a : α} (h : outcome (look x) w = (.ok a, w')) :
    (x.outcome w.disk w.log).1 = .ok a ∧ w'.disk = w.disk := by
  rw [outcome_look] at h
  exact ⟨congrArg Prod.fst h, (congrArg (fun r => r.2.disk) h).symm⟩

theorem of_ask_ok {question : Disk → Except FileProblem α} {a : α} (h : outcome (ask question) w = (.ok a, w')) :
    question w.disk = .ok a ∧ w' = w := by
  rw [outcome_ask] at h
  exact ⟨Reading.mapError_eq_ok (congrArg Prod.fst h), (congrArg Prod.snd h).symm⟩

theorem of_textOf_ok {path : Path} {s : Text} (h : outcome (textOf path) w = (.ok s, w')) :
    Reading.textIn w.disk path = .ok s ∧ w' = w := by
  rw [outcome_textOf] at h
  exact ⟨congrArg Prod.fst h, (congrArg Prod.snd h).symm⟩

theorem of_change_ok {step : Disk → Except FileProblem Disk} {u : Unit} (h : outcome (change step) w = (.ok u, w')) :
    step w.disk = .ok w'.disk := by
  rw [outcome_change] at h
  cases hstep : step w.disk with
  | error e =>
    rw [hstep] at h
    cases h
  | ok d =>
    rw [hstep] at h
    cases h
    rfl

theorem of_changeBySteps_ok {steps : Disk → Disk × Except FileProblem Unit} {u : Unit}
    (h : outcome (changeBySteps steps) w = (.ok u, w')) : steps w.disk = (w'.disk, .ok ()) := by
  rw [outcome_changeBySteps] at h
  exact Prod.ext (congrArg (fun r => r.2.disk) h) (Reading.mapError_eq_ok (congrArg Prod.fst h))

theorem of_writeText_ok {path : Path} {s : Text} {u : Unit} (h : outcome (writeText path s) w = (.ok u, w')) :
    w.disk.writeBytes path (Utf8.encode s) = .ok w'.disk := of_change_ok h

/-! ## Jobs that go through a list -/

theorem course_of_mapM {f : α → Job β} {xs : List α} {ys : List β} (h : outcome (xs.mapM f) w = (.ok ys, w')) :
    Course (fun x y w w' => outcome (f x) w = (.ok y, w')) xs ys w w' := by
  induction xs generalizing w ys with
  | nil =>
    cases h
    exact .nil _
  | cons x xs ih =>
    rw [List.mapM_cons] at h
    obtain ⟨y, w₁, hy, h⟩ := exists_of_bind_ok h
    obtain ⟨ys', w₂, hys, h⟩ := exists_of_bind_ok h
    cases h
    exact .cons hy (ih hys)

/-- A job with a state of its own succeeds: it gives a result and leaves a workspace and a state. -/
def Yields (m : StateT σ Job α) (s : Workspace × σ) (a : α) (t : Workspace × σ) : Prop :=
  outcome (m.run s.2) s.1 = (.ok (a, t.2), t.1)

variable {m : StateT σ Job α} {s t : Workspace × σ} {a : α}

theorem Yields.exists_of_bind {f : α → StateT σ Job β} {b : β} (h : Yields (m >>= f) s b t) :
    ∃ a u, Yields m s a u ∧ Yields (f a) u b t := by
  obtain ⟨⟨a, i⟩, v, hm, hf⟩ := Job.exists_of_bind_ok h
  exact ⟨a, (v, i), hm, hf⟩

theorem Yields.of_pure {b : α} (h : Yields (pure b) s a t) : a = b ∧ t = s := by
  obtain ⟨w, i⟩ := t
  cases h
  exact ⟨rfl, rfl⟩

theorem Yields.of_get {i : σ} (h : Yields get s i t) : i = s.2 ∧ t = s := by
  obtain ⟨w, j⟩ := t
  cases h
  exact ⟨rfl, rfl⟩

theorem Yields.of_modify {f : σ → σ} {u : PUnit} (h : Yields (modify f) s u t) : t = (s.1, f s.2) := by
  obtain ⟨w, i⟩ := t
  cases h
  rfl

theorem Yields.of_lift {x : Job α} (h : Yields (x : StateT σ Job α) s a t) :
    outcome x s.1 = (.ok a, t.1) ∧ t.2 = s.2 := by
  obtain ⟨w, i⟩ := t
  obtain ⟨b, v, hx, h⟩ := Job.exists_of_bind_ok h
  cases h
  exact ⟨hx, rfl⟩

theorem Yields.course {f : α → StateT σ Job β} {xs : List α} {ys : List β} (h : Yields (xs.mapM f) s ys t) :
    Course (fun x y s t => Yields (f x) s y t) xs ys s t := by
  induction xs generalizing s ys with
  | nil =>
    obtain ⟨rfl, rfl⟩ := h.of_pure
    exact .nil t
  | cons x xs ih =>
    rw [List.mapM_cons] at h
    obtain ⟨y, s₁, hy, h⟩ := h.exists_of_bind
    obtain ⟨ys', s₂, hys, h⟩ := h.exists_of_bind
    obtain ⟨rfl, rfl⟩ := h.of_pure
    exact .cons hy (ih hys)

end Job
end Sitewright
