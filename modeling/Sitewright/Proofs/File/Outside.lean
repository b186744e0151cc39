import Sitewright.Proofs.File.Alike
import Sitewright.Proofs.File.Beneath
/-!
# Two disks seen from outside some directories

Two disks may differ in any way inside some directories. A path that never goes into them finds the same on both,
as far as the files elsewhere hold the same.

* `Path.Enters`: a path goes into a class of locations.
* `Disk.AlikeOutside`: the relation of the two disks.

Main statements: `AlikeOutside.isFile_eq`, `AlikeOutside.readBytes_eq`.
-/
set_option autoImplicit false

namespace Sitewright

open FileTree (entryAt contentAt kindAt)

/-- A path goes into a class of locations: it passes one of them or ends there. -/
def Path.Enters (T : Location → Prop) (p : Path) : Prop := ∃ loc ∈ Path.passed [] p.parts, T loc

/-- The same stands on two disks outside a class of locations, times apart, but for what files hold at the locations
of a second class. -/
structure Disk.AlikeOutside (T S : Location → Prop) (d d' : Disk) : Prop where
  kind : ∀ loc, ¬ T loc → kindAt loc d'.tree = kindAt loc d.tree
  content : ∀ loc, ¬ T loc → ¬ S loc → contentAt loc d'.tree = contentAt loc d.tree

variable {T S : Location → Prop} {d d' d'' : Disk} {home loc : Location} {names : List Text} {p : Path}

namespace Path

theorem not_enters_ofLocation (hloc : PlainNames loc) (h : Disk.Spares T loc) : ¬ (ofLocation loc).Enters T := by
  rintro ⟨l, hl, hT⟩
  exact h l (prefix_of_mem_passed hloc.straight hl) hT

end Path

theorem FileTree.mem_passed_of_walk {tree : FileTree} {dir : Location} {parts : List Text} {bytes : Bytes}
    {stamp : Stamp} (h : FileTree.walk tree dir parts = .ok (.entry loc (.file bytes stamp))) :
    loc ∈ Path.passed dir parts := by
  induction parts generalizing dir with
  | nil => cases h
  | cons part rest ih =>
    rw [FileTree.walk_cons] at h
    rw [Path.passed]
    split at h
    · rename_i hdots
      rw [if_pos hdots]
      exact ih h
    · rename_i hdots
      rw [if_neg hdots]
      split at h
      · cases h
      · split at h
        · split at h <;> cases h
        · exact List.mem_cons_of_mem _ (ih h)
        · split at h
          · cases h
            exact List.mem_cons_self
          · cases h

theorem not_beneath_nil : ¬ Beneath home names [] := by
  rintro ⟨name, _, hbelow⟩
  have hlen := hbelow.length_le
  simp at hlen

namespace Disk

theorem AlikeOutside.symm (h : AlikeOutside T S d d') : AlikeOutside T S d' d :=
  ⟨fun loc hT => (h.kind loc hT).symm, fun loc hT hS => (h.content loc hT hS).symm⟩

theorem AlikeOutside.trans (h : AlikeOutside T S d d') (h' : AlikeOutside T S d' d'') : AlikeOutside T S d d'' :=
  ⟨fun loc hT => (h'.kind loc hT).trans (h.kind loc hT),
    fun loc hT hS => (h'.content loc hT hS).trans (h.content loc hT hS)⟩

theorem AlikeOutside.mono {S' : Location → Prop} (h : AlikeOutside T S d d') (hS : ∀ l, ¬ T l → S l → S' l) :
    AlikeOutside T S' d d' :=
  ⟨h.kind, fun loc hT hloc => h.content loc hT fun hc => hloc (hS loc hT hc)⟩

theorem Alike.outside (h : Alike S d d') : AlikeOutside T S d d' :=
  ⟨fun loc _ => h.kind loc, fun loc _ hS => h.content loc hS⟩

theorem Changes.alikeOutside (h : Changes T S d d') (hS : ∀ loc, S loc → HoldsFile d loc) : AlikeOutside T S d d' := by
  refine ⟨fun loc hT => ?_, fun loc hT hloc => ?_⟩
  · by_cases hloc : S loc
    · rw [FileTree.kindAt_eq_file.2 (hS loc hloc), FileTree.kindAt_eq_file.2 (h.file loc hT (hS loc hloc))]
    · rw [kindAt, kindAt, contentAt, contentAt, h.entry loc hT hloc]
  · rw [contentAt, contentAt, h.entry loc hT hloc]

theorem start_of_absolute (h : p.anchor ≠ .here) (d : Disk) : d.start p.anchor = [] := by
  cases hanchor : p.anchor with
  | here => exact absurd hanchor h
  | root => rfl
  | doubleRoot => rfl

section

variable (habsolute : p.anchor ≠ .here) (hroot : ¬ T []) (hout : ¬ p.Enters T)
include habsolute hroot hout

theorem AlikeOutside.place (h : AlikeOutside T S d d') : SamePlace d d' p := by
  have hstart := start_of_absolute habsolute
  refine samePlace_of_kinds ((hstart d').trans (hstart d).symm) ?_ ?_
  · rw [hstart]
    exact h.kind [] hroot
  · rw [hstart]
    exact fun loc hloc => h.kind loc fun hT => hout ⟨loc, hloc, hT⟩

theorem AlikeOutside.isFile_eq (h : AlikeOutside T S d d') : d'.isFile p = d.isFile p :=
  (h.place habsolute hroot hout).isFile_eq

theorem AlikeOutside.readBytes_eq (h : AlikeOutside T S d d') (hS : ¬ S (p.resolve d.here)) :
    d'.readBytes p = d.readBytes p := by
  refine (h.place habsolute hroot hout).readBytes_eq fun loc bytes stamp hplace => ?_
  have hloc : loc = p.resolve d.here := location_place hplace
  obtain ⟨-, hwalk⟩ := walk_of_place hplace
  rw [start_of_absolute habsolute] at hwalk
  exact h.content loc (fun hT => hout ⟨loc, FileTree.mem_passed_of_walk hwalk, hT⟩) (hloc ▸ hS)

end

end Disk
end Sitewright
