import Sitewright.Proofs.File.Frame
/-!
# What a copy leaves alone

A copy of a directory touches its target, what lies below that, and what is missing above it. One name can
be told apart: where the source holds no directory of that name, nothing is copied below it.

Main statements: `changes_copyTree` and `changes_copyTree_except`.
-/
set_option autoImplicit false

namespace Sitewright

open FileTree (entryAt)

namespace Disk

variable {S : Location → Prop} {d d' : Disk} {source : Path} {tgt top : Location}

/-! ## Files -/

/-- Contents are copied by putting a file where the target leads, and that is never to a directory. -/
theorem exists_of_copyInto {target : Path} (h : d.copyInto source target = .ok d') :
    ∃ q bytes stamp, d.place target = .ok q ∧ entryAt q.location d.tree ≠ some .directory ∧
      d' = { d with tree := FileTree.put q.location (.file bytes stamp) d.tree } := by
  unfold copyInto at h
  split at h
  · split at h
    · cases h
    · rename_i hp
      cases h
      exact ⟨_, _, _, hp, ne_directory_of_file hp, rfl⟩
    · rename_i hp
      cases h
      exact ⟨_, _, _, hp, ne_directory_of_vacant hp, rfl⟩
    · cases h
  · cases h
  · cases h
  · cases h

theorem copyFile_disk (d : Disk) (source target : Path) :
    ∃ inside, (inside = target ∨ inside = target.child source.name) ∧
      (d.copyFile source target).1 =
        if d.sameEntry source inside then d else (d.copyInto source inside).toOption.getD d := by
  unfold copyFile
  rcases hdir : d.isDirectory target with e | _ | _
  · refine ⟨target, .inl rfl, ?_⟩
    simp only
    split
    · rfl
    · cases d.copyInto source target <;> rfl
  · refine ⟨target, .inl rfl, ?_⟩
    simp only
    split
    · rfl
    · cases d.copyInto source target <;> rfl
  · refine ⟨target.child source.name, .inr rfl, ?_⟩
    simp only [Path.child]
    rw [apply_ite Prod.fst]
    cases d.copyInto source ⟨target.anchor, target.parts ++ [source.name]⟩ <;> rfl

/-- A file is copied to its target, or into it under its own name, or not at all. -/
theorem copyFile_cases (d : Disk) (source target : Path) :
    (d.copyFile source target).1 = d ∨
      ∃ inside, (inside = target ∨ inside = target.child source.name) ∧
        d.copyInto source inside = .ok (d.copyFile source target).1 := by
  obtain ⟨inside, hwhere, hdisk⟩ := copyFile_disk d source target
  rw [hdisk]
  split
  · exact .inl rfl
  · cases hcopy : d.copyInto source inside with
    | error e => exact .inl rfl
    | ok d' => exact .inr ⟨inside, hwhere, hcopy⟩

theorem copyFile_child_cases (d : Disk) (source : Path) (tgt : Location) (name : Text) :
    (d.copyFile (source.child name) (.ofLocation tgt)).1 = d ∨
      ∃ inside, (inside = tgt ∨ inside = tgt ++ [name]) ∧
        d.copyInto (source.child name) (.ofLocation inside) =
          .ok (d.copyFile (source.child name) (.ofLocation tgt)).1 := by
  have hsource : (source.child name).name = name := by
    simp [Path.child, Path.name]
  rcases copyFile_cases d (source.child name) (.ofLocation tgt) with hdisk | ⟨inside, rfl | rfl, hcopy⟩
  · exact .inl hdisk
  · exact .inr ⟨tgt, .inl rfl, hcopy⟩
  · rw [hsource] at hcopy
    exact .inr ⟨tgt ++ [name], .inr rfl, hcopy⟩

theorem changes_copyInto (htgt : PlainNames tgt)
    (h : d.copyInto source (.ofLocation tgt) = .ok d') : Changes (· = tgt) S d d' := by
  obtain ⟨q, bytes, stamp, hp, -, rfl⟩ := exists_of_copyInto h
  obtain rfl : q.location = tgt := location_ofLocation htgt hp
  exact .of_entry rfl (fun l hl => FileTree.entryAt_put_of_ne hl _ d.tree) fun hd => hd.put htgt _

theorem changes_copyFile {name : Text} (htgt : PlainNames tgt) (hname : Path.PlainName name) :
    Changes (fun l => l = tgt ∨ l = tgt ++ [name]) S d
      (d.copyFile (source.child name) (.ofLocation tgt)).1 := by
  rcases copyFile_child_cases d source tgt name with hdisk | ⟨inside, rfl | rfl, hcopy⟩
  · rw [hdisk]
    exact .refl _ _ d
  · exact (changes_copyInto (S := Nowhere) htgt hcopy).widen fun l hl => .inl hl
  · exact (changes_copyInto (S := Nowhere) (htgt.child hname) hcopy).widen fun l hl => .inr hl

/-! ## Directories -/

/-- What becomes of one name of the source when a directory is copied. -/
def copyEntry (source target : Path) (depth : Nat) (state : Disk × List CopyNote) (name : Text) :
    Disk × List CopyNote :=
  let origin := source.child name
  let copy := target.child name
  match state.1.isDirectory origin with
  | .ok true =>
    match state.1.copyTreeTo origin copy depth with
    | (d, .ok ()) => (d, state.2)
    | (d, .error (.notes more)) => (d, state.2 ++ more)
    | (d, .error (.file e)) => (d, state.2 ++ [.failed origin.toText copy.toText e.message])
  | _ => ((state.1.copyFile origin copy).1, state.2 ++ (state.1.copyFile origin copy).2)

theorem copyTreeTo_succ (d : Disk) (source target : Path) (depth : Nat) :
    d.copyTreeTo source target (depth + 1) =
      match d.list source with
      | .error e => (d, .error (.file e))
      | .ok names =>
        match d.ensureDirectories target with
        | (d, .error e) => (d, .error (.file e))
        | (d, .ok ()) =>
          let copied := names.foldl (copyEntry source target depth) (d, [])
          (copied.1, if copied.2.isEmpty then .ok () else .error (.notes copied.2)) := rfl

/-- The locations that a copy from a standing directory on may touch. -/
def Reach (top tgt : Location) : Location → Prop := fun l => top <+: l ∧ l ≠ top ∧ (l <+: tgt ∨ tgt <+: l)

theorem spares_reach (top tgt : Location) : Spares (Reach top tgt) top := by
  intro l hl hc
  exact hc.2.1 (hl.eq_of_length_le hc.1.length_le)

theorem reach_child {name : Text} {l : Location} (h : Reach top (tgt ++ [name]) l) : Reach top tgt l := by
  refine ⟨h.1, h.2.1, ?_⟩
  rcases h.2.2 with hl | hl
  · rcases Nat.lt_or_ge tgt.length l.length with hlen | hlen
    · exact .inr (List.prefix_of_prefix_length_le (List.prefix_append _ _) hl (by omega))
    · exact .inl (List.prefix_of_prefix_length_le hl (List.prefix_append _ _) (by omega))
  · exact .inr ((List.prefix_append _ _).trans hl)

theorem changes_foldl {α β : Type} {T : Location → Prop} {I : Disk → Prop} {step : Disk × β → α → Disk × β}
    {xs : List α} (hkeep : ∀ d d', Changes T S d d' → I d → I d')
    (hstep : ∀ x ∈ xs, ∀ state : Disk × β, I state.1 → Changes T S state.1 (step state x).1)
    (state : Disk × β) (hI : I state.1) : Changes T S state.1 (xs.foldl step state).1 := by
  induction xs generalizing state with
  | nil => exact .refl _ _ _
  | cons x xs ih =>
    have hfirst := hstep x List.mem_cons_self state hI
    rw [List.foldl_cons]
    exact hfirst.trans (ih (fun y hy => hstep y (List.mem_cons_of_mem x hy)) (step state x)
      (hkeep _ _ hfirst hI))

/-- What a copy needs of the disk it works on. -/
structure Copies (top : Location) (d : Disk) : Prop where
  sound : FileTree.Sound d.tree
  standing : d.isDirectory (.ofLocation top) = .ok true

theorem Copies.changes (hplain : PlainNames top) (h : Copies top d) (hd : Changes (Reach top tgt) S d d')
    (hS : Spares S top) : Copies top d' :=
  ⟨hd.sound h.sound, (hd.isDirectory_at hplain (spares_reach top tgt) hS).trans h.standing⟩

theorem reach_file {name : Text} {l : Location} (htop : top <+: tgt)
    (h : l = tgt ++ [name] ∨ l = tgt ++ [name] ++ [name]) : Reach top (tgt ++ [name]) l := by
  have hlen := htop.length_le
  have hbelow : tgt ++ [name] <+: l := by
    rcases h with rfl | rfl
    · exact List.prefix_refl _
    · exact List.prefix_append _ _
  refine ⟨(htop.trans (List.prefix_append _ _)).trans hbelow, fun hc => ?_, .inr hbelow⟩
  have hlen' := hbelow.length_le
  rw [hc, List.length_append, List.length_singleton] at hlen'
  omega

theorem disk_copyEntry_of_file {depth : Nat} {name : Text} {state : Disk × List CopyNote}
    (h : state.1.isDirectory (source.child name) ≠ .ok true) :
    (copyEntry source (.ofLocation tgt) depth state name).1 =
      (state.1.copyFile (source.child name) (.ofLocation (tgt ++ [name]))).1 := by
  have hchild : (Path.ofLocation tgt).child name = .ofLocation (tgt ++ [name]) := rfl
  unfold copyEntry
  simp only [hchild]

/-- One name of the source is copied within the reach of its own target. -/
theorem changes_copyEntry {depth : Nat} {name : Text} (hname : Path.PlainName name) (htgt : PlainNames tgt)
    (htop : top <+: tgt) (state : Disk × List CopyNote)
    (hdirectory : Changes (Reach top (tgt ++ [name])) Nowhere state.1
      (state.1.copyTreeTo (source.child name) (.ofLocation (tgt ++ [name])) depth).1) :
    Changes (Reach top (tgt ++ [name])) Nowhere state.1
      (copyEntry source (.ofLocation tgt) depth state name).1 := by
  by_cases hdir : state.1.isDirectory (source.child name) = .ok true
  · have hchild : (Path.ofLocation tgt).child name = .ofLocation (tgt ++ [name]) := rfl
    unfold copyEntry
    simp only [hchild, hdir]
    rcases hrun : state.1.copyTreeTo (source.child name) (.ofLocation (tgt ++ [name])) depth with
      ⟨d', _ | _⟩
    · rename_i problem
      rw [hrun] at hdirectory
      cases problem <;> exact hdirectory
    · rw [hrun] at hdirectory
      exact hdirectory
  · rw [disk_copyEntry_of_file hdir]
    exact (changes_copyFile (S := Nowhere) (htgt.child hname) hname).widen fun l hl => reach_file htop hl

theorem between_reach {l : Location} (h : Between top tgt l) : Reach top tgt l := ⟨h.1, h.2.1, .inl h.2.2⟩

/-- A copied directory stays within the reach of its target. -/
theorem changes_copyTreeTo (source : Path) (htgt : PlainNames tgt) (htop : top <+: tgt)
    (depth : Nat) (d : Disk) (h : Copies top d) :
    Changes (Reach top tgt) Nowhere d (d.copyTreeTo source (.ofLocation tgt) depth).1 := by
  have hplain : PlainNames top := htgt.of_prefix htop
  induction depth generalizing d source tgt with
  | zero => exact .refl _ _ d
  | succ depth ih =>
    rw [copyTreeTo_succ]
    cases hlist : d.list source with
    | error e => exact .refl _ _ d
    | ok names =>
      have hmade : Changes (Reach top tgt) Nowhere d (d.ensureDirectories (.ofLocation tgt)).1 :=
        (changes_ensureDirectories htgt htop h.standing).widen fun l hl => between_reach hl
      rcases hrun : d.ensureDirectories (.ofLocation tgt) with ⟨d₁, e | u⟩
      · rw [hrun] at hmade
        exact hmade
      · rw [hrun] at hmade
        have hcopies : Copies top d₁ := h.changes hplain hmade (spares_nowhere top)
        have hkeep : ∀ d d', Changes (Reach top tgt) Nowhere d d' → Copies top d → Copies top d' :=
          fun _ _ hd hc => hc.changes hplain hd (spares_nowhere top)
        refine hmade.trans (changes_foldl hkeep (fun name hname state hstate => ?_) (d₁, []) hcopies)
        have hname' := plain_of_list h.sound hlist name hname
        have hentry := changes_copyEntry hname' htgt htop state
          (ih (source.child name) (htgt.child hname') (htop.trans (List.prefix_append _ _)) state.1 hstate)
        exact hentry.widen fun l hl => reach_child hl

theorem changes_copyTree (source : Path) (htgt : PlainNames tgt) (htop : top <+: tgt) (h : Copies top d) :
    Changes (Reach top tgt) Nowhere d (d.copyTree source (.ofLocation tgt)).1 :=
  changes_copyTreeTo source htgt htop _ d h

/-! ## One name apart -/

/-- What a copy may touch where the source holds no directory of a name. -/
def ReachExcept (top tgt : Location) (name : Text) : Location → Prop := fun l =>
  Reach top tgt l ∧ (tgt ++ [name] <+: l → l = tgt ++ [name] ∨ l = tgt ++ [name] ++ [name])

theorem reachExcept_of_ne {name other : Text} (hne : other ≠ name) {l : Location}
    (h : Reach top (tgt ++ [other]) l) : ReachExcept top tgt name l := by
  refine ⟨reach_child h, fun hl => absurd ?_ hne⟩
  have hsame : tgt ++ [other] <+: l → other = name := by
    intro hother
    have := List.prefix_of_prefix_length_le hother hl (by simp)
    exact List.singleton_inj.1 (List.append_cancel_left (this.eq_of_length (by simp)))
  rcases h.2.2 with hup | hdown
  · exact hsame ((hl.trans hup).eq_of_length (by simp) ▸ hl)
  · exact hsame hdown

/-- Where the source holds no directory of a name, at most a file is copied to that name. -/
theorem changes_copyTree_except {src : Location} {name : Text} (hsrc : PlainNames src) (htgt : PlainNames tgt)
    (hname : Path.PlainName name) (htop : top <+: tgt)
    (hsource : Spares (Reach top tgt) (src ++ [name]))
    (hfile : d.isDirectory (.ofLocation (src ++ [name])) ≠ .ok true) (h : Copies top d) :
    Changes (ReachExcept top tgt name) Nowhere d (d.copyTree (.ofLocation src) (.ofLocation tgt)).1 := by
  have hplain : PlainNames top := htgt.of_prefix htop
  unfold copyTree
  rw [copyTreeTo_succ]
  cases hlist : d.list (.ofLocation src) with
  | error e => exact .refl _ _ d
  | ok names =>
    have hmade : Changes (Between top tgt) Nowhere d (d.ensureDirectories (.ofLocation tgt)).1 :=
      changes_ensureDirectories htgt htop h.standing
    have hbetween : ∀ l, Between top tgt l → ReachExcept top tgt name l := by
      intro l hl
      refine ⟨between_reach hl, fun hc => ?_⟩
      have := (hc.trans hl.2.2).length_le
      simp at this
    rcases hrun : d.ensureDirectories (.ofLocation tgt) with ⟨d₁, e | u⟩
    · rw [hrun] at hmade
      exact hmade.widen hbetween
    · rw [hrun] at hmade
      have hkeep : ∀ d d', Changes (ReachExcept top tgt name) Nowhere d d' →
          Copies top d ∧ d.isDirectory (.ofLocation (src ++ [name])) ≠ .ok true →
          Copies top d' ∧ d'.isDirectory (.ofLocation (src ++ [name])) ≠ .ok true := by
        intro d d' hd hc
        have hwide : Changes (Reach top tgt) Nowhere d d' := hd.widen fun l hl => hl.1
        refine ⟨hc.1.changes hplain hwide (spares_nowhere top), ?_⟩
        rw [hwide.isDirectory_at (hsrc.child hname) hsource (spares_nowhere _)]
        exact hc.2
      have hfirst : Changes (ReachExcept top tgt name) Nowhere d d₁ := hmade.widen hbetween
      refine hfirst.trans (changes_foldl hkeep (fun other hother state hstate => ?_) (d₁, [])
        (hkeep _ _ hfirst ⟨h, hfile⟩))
      have hother' := plain_of_list h.sound hlist other hother
      -- the name itself is copied as a file, and every other one has its copy beside it
      by_cases heq : other = name
      · subst heq
        rw [disk_copyEntry_of_file hstate.2]
        refine (changes_copyFile (S := Nowhere) (htgt.child hother') hother').widen fun l hl => ?_
        exact ⟨reach_child (reach_file htop hl), fun _ => hl⟩
      · have hentry := changes_copyEntry hother' htgt htop state
          (changes_copyTreeTo ((Path.ofLocation src).child other) (htgt.child hother')
            (htop.trans (List.prefix_append _ _)) d.tree.length state.1 hstate.1)
        exact hentry.widen fun l hl => reachExcept_of_ne heq hl

end Disk
end Sitewright
