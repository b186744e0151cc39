import Sitewright.Proofs.Agreement
import Sitewright.Proofs.File.Outside
/-!
# The same files on two disks

Where a disk changes in what files hold and in which files there are, but has the same directories as before, a path
leads to where it led, whatever it passes. So the same files are found at all paths that do not end in the class of
locations that was written to.

* `Disk.SameFiles`: the same files are found on two disks outside of a class of locations.

Main statement: `Changes.sameFiles`.
-/
set_option autoImplicit false

namespace Sitewright.Disk

open Reading (textIn)

variable {T T' : Location → Prop} {d d' d'' : Disk} {p : Path}

/-- The same files are found at the paths that do not lead into a class of locations. -/
structure SameFiles (T : Location → Prop) (d d' : Disk) : Prop where
  here : d'.here = d.here
  read : ∀ p bytes, ¬ T (p.resolve d.here) → (d'.readBytes p = .ok bytes ↔ d.readBytes p = .ok bytes)

theorem readBytes_ok_iff {bytes : Bytes} :
    d.readBytes p = .ok bytes ↔ ∃ stamp, d.look p = .ok (some (.file bytes stamp)) := by
  constructor
  · intro h
    obtain ⟨loc, stamp, hp⟩ := place_of_readBytes h
    exact ⟨stamp, look_of_place hp⟩
  · rintro ⟨stamp, h⟩
    obtain ⟨loc, hp⟩ := place_of_look h
    exact readBytes_of_place hp

/-- Where no directory comes or goes, the same files are found outside of what is written to. -/
theorem Changes.sameFiles (h : Changes Nowhere T d d') : SameFiles T d d' := by
  refine ⟨h.here, fun p bytes hp => ?_⟩
  have hlast : ¬ T (Path.follow (d.start p.anchor) p.parts) := by
    unfold Path.resolve at hp
    cases hanchor : p.anchor <;> rw [hanchor] at hp <;> exact hp
  rw [readBytes_ok_iff, readBytes_ok_iff, h.look_eq ⟨id, fun _ _ => id, hlast⟩]

theorem Changes.walk_file (h : Changes Nowhere T d d') {dir loc : Location} {parts : List Text} {bytes : Bytes}
    {stamp : Stamp} (hwalk : FileTree.walk d.tree dir parts = .ok (.entry loc (.file bytes stamp))) :
    ∃ bytes stamp, FileTree.walk d'.tree dir parts = .ok (.entry loc (.file bytes stamp)) := by
  induction parts generalizing dir with
  | nil => cases hwalk
  | cons part rest ih =>
    rw [FileTree.walk_cons] at hwalk ⊢
    split at hwalk
    · rw [if_pos ‹_›]
      exact ih hwalk
    · rw [if_neg ‹_›]
      split at hwalk
      · cases hwalk
      · rw [if_neg ‹_›]
        split at hwalk
        · split at hwalk <;> cases hwalk
        · rename_i hdir
          rw [(h.directory _ id).2 hdir]
          exact ih hwalk
        · rename_i hfile
          split at hwalk
          · rename_i hlast
            cases hwalk
            obtain ⟨bytes', stamp', hfile'⟩ := h.file _ id ⟨_, _, hfile⟩
            rw [hfile']
            exact ⟨bytes', stamp', if_pos hlast⟩
          · cases hwalk

theorem Changes.readBytes_kept (h : Changes Nowhere T d d') {bytes : Bytes} (hread : d.readBytes p = .ok bytes) :
    ∃ bytes, d'.readBytes p = .ok bytes := by
  obtain ⟨loc, stamp, hplace⟩ := place_of_readBytes hread
  obtain ⟨hdir, hwalk⟩ := walk_of_place hplace
  obtain ⟨bytes', stamp', hwalk'⟩ := h.walk_file hwalk
  have hplace' : d'.place p = .ok (.entry loc (.file bytes' stamp')) := by
    rw [place_eq_walk (not_hasNul_of_place hplace nofun), h.start_eq, (h.directory _ id).2 hdir, hwalk']
  exact ⟨bytes', readBytes_of_place hplace'⟩

namespace SameFiles

theorem symm (h : SameFiles T d d') : SameFiles T d' d :=
  ⟨h.here.symm, fun p bytes hp => (h.read p bytes (h.here ▸ hp)).symm⟩

theorem trans (h : SameFiles T d d') (h' : SameFiles T d' d'') : SameFiles T d d'' :=
  ⟨h'.here.trans h.here, fun p bytes hp => (h'.read p bytes (h.here.symm ▸ hp)).trans (h.read p bytes hp)⟩

theorem textIn_iff (h : SameFiles T d d') (hp : ¬ T (p.resolve d.here)) {s : Text} :
    textIn d' p = .ok s ↔ textIn d p = .ok s := by
  have hread : ∀ {d d' : Disk}, (∀ bytes, d.readBytes p = .ok bytes → d'.readBytes p = .ok bytes) →
      textIn d p = .ok s → textIn d' p = .ok s := by
    intro d d' hsame htext
    cases hbytes : d.readBytes p with
    | error e =>
      rw [textIn, hbytes] at htext
      cases htext
    | ok bytes =>
      rw [Reading.textIn_congr ((hsame bytes hbytes).trans hbytes.symm)]
      exact htext
  exact ⟨hread fun bytes => (h.read p bytes hp).1, hread fun bytes => (h.read p bytes hp).2⟩

end SameFiles
end Sitewright.Disk
