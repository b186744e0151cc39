import Sitewright.Proofs.File.Lookup
/-!
# What changes to a disk change

Each operation on single paths is described by the entries that it leaves at every location. A path
without double dots passes nothing but the fronts of its own location, so a change elsewhere does not
concern it.

Main statements: removing a directory takes the branch below its location and nothing else
(`removeTree_directory`), where something is only taken away nothing new is found (`exists?_false_of_within`),
and writing a file leaves every directory what it was (`writeBytes_sameDirectories`).
-/
set_option autoImplicit false

namespace Sitewright

open FileTree (Flaw Place walk entryAt nameLimit isBelow)

/-! ## Fronts of locations -/

namespace FileTree

theorem isBelow_iff {top loc : Location} : isBelow top loc = true ↔ top <+: loc := by
  unfold isBelow below?
  induction top generalizing loc with
  | nil => simp [Path.partsAfter?]
  | cons a top ih =>
    cases loc with
    | nil => simp [Path.partsAfter?]
    | cons b loc =>
      rw [Path.partsAfter?, List.cons_prefix_cons]
      split
      · rename_i hab
        rw [ih]
        exact ⟨fun h => ⟨hab, h⟩, fun h => h.2⟩
      · rename_i hab
        simp [hab]

theorem below?_eq_some {top loc rest : Location} : below? top loc = some rest ↔ loc = top ++ rest := by
  unfold below?
  induction top generalizing loc with
  | nil => simp [Path.partsAfter?, eq_comm]
  | cons a top ih =>
    cases loc with
    | nil => simp [Path.partsAfter?]
    | cons b loc =>
      rw [Path.partsAfter?, List.cons_append, List.cons.injEq]
      split
      · rename_i hab
        rw [ih]
        exact ⟨fun h => ⟨hab.symm, h⟩, fun h => h.2⟩
      · rename_i hab
        simp [Ne.symm hab]

end FileTree

/-- No part of the path is a double dot. -/
def Path.Straight (p : Path) : Prop := ['.', '.'] ∉ p.parts

instance (p : Path) : Decidable p.Straight := inferInstanceAs (Decidable (['.', '.'] ∉ p.parts))

theorem Path.follow_of_not_mem {dir : Location} {parts : List Text} (h : ['.', '.'] ∉ parts) :
    Path.follow dir parts = dir ++ parts := by
  induction parts generalizing dir with
  | nil => rw [follow, List.append_nil]
  | cons part rest ih =>
    rw [List.mem_cons, not_or] at h
    rw [follow, if_neg (Ne.symm h.1), ih h.2, List.append_assoc]
    rfl

theorem Path.prefix_of_mem_passed {dir loc : Location} {parts : List Text} (h : ['.', '.'] ∉ parts)
    (hloc : loc ∈ Path.passed dir parts) : loc <+: dir ++ parts := by
  induction parts generalizing dir with
  | nil => cases hloc
  | cons part rest ih =>
    rw [List.mem_cons, not_or] at h
    rw [passed, if_neg (Ne.symm h.1)] at hloc
    have happ : dir ++ part :: rest = dir ++ [part] ++ rest := by rw [List.append_assoc]; rfl
    rw [happ]
    rcases List.mem_cons.1 hloc with rfl | hloc
    · exact List.prefix_append _ _
    · exact ih h.2 hloc

namespace Disk

theorem place_congr_of_straight {d d' : Disk} {p : Path} (hp : p.Straight) (hhere : d'.here = d.here)
    (h : ∀ loc, loc <+: d.start p.anchor ++ p.parts → entryAt loc d'.tree = entryAt loc d.tree) :
    d'.place p = d.place p :=
  place_congr hhere (h _ (List.prefix_append _ _)) fun loc hloc => h loc (Path.prefix_of_mem_passed hp hloc)

theorem location_of_straight {d : Disk} {p : Path} {q : Place} (hp : p.Straight)
    (h : d.place p = .ok q) : q.location = d.start p.anchor ++ p.parts := by
  rw [location_place h, Path.resolve]
  cases hanchor : p.anchor <;> simp only [start] <;> exact Path.follow_of_not_mem hp

/-- What a straight path leads to stands at its location. -/
theorem entryAt_of_walk {tree : FileTree} {dir loc : Location} {parts : List Text} {e : Entry}
    (hparts : ['.', '.'] ∉ parts) (hdir : entryAt dir tree = some .directory)
    (h : walk tree dir parts = .ok (.entry loc e)) : entryAt loc tree = some e := by
  induction parts generalizing dir with
  | nil =>
    cases h
    exact hdir
  | cons part rest ih =>
    rw [List.mem_cons, not_or] at hparts
    rw [FileTree.walk_cons, if_neg (Ne.symm hparts.1)] at h
    split at h
    · cases h
    · split at h
      · split at h <;> cases h
      · rename_i he
        exact ih hparts.2 he h
      · rename_i he
        split at h
        · cases h
          exact he
        · cases h

theorem entryAt_of_place {d : Disk} {p : Path} {loc : Location} {e : Entry} (hp : p.Straight)
    (h : d.place p = .ok (.entry loc e)) : entryAt loc d.tree = some e :=
  entryAt_of_walk hp (walk_of_place h).1 (walk_of_place h).2

end Disk

/-! ## Taking away -/

/-- Every entry of one tree stands in the other one too. -/
def FileTree.Within (tree' tree : FileTree) : Prop :=
  ∀ loc e, entryAt loc tree' = some e → entryAt loc tree = some e

namespace FileTree

theorem Within.refl (tree : FileTree) : Within tree tree := fun _ _ h => h

theorem within_filter (keep : Location → Bool) (tree : FileTree) :
    Within (tree.filter fun item => keep item.1) tree := by
  intro loc e h
  rw [entryAt_filter] at h
  split at h
  · exact h
  · cases h

/-- Where less stands, a walk that comes to an entry, or to a name that is too long, did so before. -/
theorem Within.walk {tree tree' : FileTree} (h : Within tree' tree) {dir : Location} {parts : List Text} :
    (∀ loc e, walk tree' dir parts = .ok (.entry loc e) → FileTree.walk tree dir parts = .ok (.entry loc e)) ∧
      (walk tree' dir parts = .error .nameTooLong → FileTree.walk tree dir parts = .error .nameTooLong) := by
  induction parts generalizing dir with
  | nil => exact ⟨fun _ _ h => h, fun h => h⟩
  | cons part rest ih =>
    rw [walk_cons, walk_cons]
    by_cases hdots : part = ['.', '.']
    · rw [if_pos hdots, if_pos hdots]
      exact ih
    · rw [if_neg hdots, if_neg hdots]
      by_cases hsize : Utf8.size part > nameLimit
      · rw [if_pos hsize, if_pos hsize]
        exact ⟨fun _ _ h => h, fun h => h⟩
      · rw [if_neg hsize, if_neg hsize]
        cases he : entryAt (dir ++ [part]) tree' with
        | none =>
          simp only
          refine ⟨fun _ _ hw => ?_, fun hw => ?_⟩ <;> split at hw <;> cases hw
        | some e =>
          rw [h _ _ he]
          cases e with
          | directory => exact ih
          | file bytes stamp => exact ⟨fun _ _ h => h, fun h => h⟩

end FileTree

namespace Disk

theorem place_entry_of_within {d d' : Disk} {p : Path} (hhere : d'.here = d.here)
    (h : FileTree.Within d'.tree d.tree) {loc : Location} {e : Entry}
    (hp : d'.place p = .ok (.entry loc e)) : d.place p = .ok (.entry loc e) := by
  obtain ⟨hdir, hw⟩ := walk_of_place hp
  rw [start_congr hhere] at hdir hw
  rw [place_eq_walk (not_hasNul_of_place hp nofun), h _ _ hdir]
  simp only [h.walk.1 loc e hw]

theorem place_nameTooLong_of_within {d d' : Disk} {p : Path} (hhere : d'.here = d.here)
    (h : FileTree.Within d'.tree d.tree) {path : Text}
    (hp : d'.place p = .error (.flaw .nameTooLong path)) : d.place p = .error (.flaw .nameTooLong path) := by
  have hnul := not_hasNul_of_place hp nofun
  rw [place_eq_walk hnul, start_congr hhere] at hp
  rw [place_eq_walk hnul]
  cases hdir : entryAt (d.start p.anchor) d'.tree with
  | none =>
    rw [hdir] at hp
    cases hp
  | some e =>
    rw [hdir] at hp
    rw [h _ _ hdir]
    cases e with
    | file bytes stamp => cases hp
    | directory =>
      simp only at hp ⊢
      cases hw : walk d'.tree (d.start p.anchor) p.parts with
      | ok q =>
        rw [hw] at hp
        cases hp
      | error flaw =>
        rw [hw] at hp
        cases hp
        rw [h.walk.2 hw]

/-- Where less stands, nothing new is found at a path. -/
theorem look_none_of_within {d d' : Disk} {p : Path} (hhere : d'.here = d.here)
    (h : FileTree.Within d'.tree d.tree) (hp : d.look p = .ok none) : d'.look p = .ok none := by
  unfold look at hp ⊢
  cases hplace : d'.place p with
  | ok q =>
    cases q with
    | vacant loc => rfl
    | entry loc e =>
      rw [place_entry_of_within hhere h hplace] at hp
      cases hp
  | error e =>
    cases e with
    | nulByte => rfl
    | flaw flaw path =>
      cases flaw <;> first | rfl | skip
      rw [place_nameTooLong_of_within hhere h hplace] at hp
      cases hp

theorem exists?_eq_false {d : Disk} {p : Path} : d.exists? p = .ok false ↔ d.look p = .ok none := by
  unfold exists?
  rcases d.look p with e | _ | e <;> simp [Except.map]

theorem exists?_eq_false_of_place {d : Disk} {p : Path} (hshort : p.Short)
    (hnone : ∀ loc e, d.place p ≠ .ok (.entry loc e)) : d.exists? p = .ok false := by
  obtain ⟨found, hlook⟩ := look_ok_of_short (d := d) hshort
  cases found with
  | none => exact exists?_eq_false.2 hlook
  | some e =>
    obtain ⟨loc, hplace⟩ := place_of_look hlook
    exact absurd hplace (hnone loc e)

theorem exists?_of_place {d : Disk} {p : Path} {loc : Location} {e : Entry} (h : d.place p = .ok (.entry loc e)) :
    d.exists? p = .ok true := by
  rw [exists?, look_of_place h]
  rfl

theorem place_of_exists {d : Disk} {p : Path} (h : d.exists? p = .ok true) :
    ∃ loc e, d.place p = .ok (.entry loc e) := by
  unfold exists? at h
  rcases hl : d.look p with e | _ | e
  · rw [hl] at h
    cases h
  · rw [hl] at h
    cases h
  · obtain ⟨loc, hp⟩ := place_of_look hl
    exact ⟨loc, e, hp⟩

theorem exists?_false_of_within {d d' : Disk} {p : Path} (hhere : d'.here = d.here)
    (h : FileTree.Within d'.tree d.tree) (hp : d.exists? p = .ok false) : d'.exists? p = .ok false :=
  exists?_eq_false.2 (look_none_of_within hhere h (exists?_eq_false.1 hp))

theorem isFile_of_within {d d' : Disk} {p : Path} (hhere : d'.here = d.here)
    (h : FileTree.Within d'.tree d.tree) (hp : d'.isFile p = .ok true) : d.isFile p = .ok true := by
  obtain ⟨loc, bytes, stamp, hplace⟩ := place_of_isFile hp
  exact isFile_of_place (place_entry_of_within hhere h hplace)

/-! ## Removing -/

/-- A disk with the tree without the branch at a location. -/
def pruned (d : Disk) (loc : Location) : Disk := { d with tree := FileTree.prune loc d.tree }

theorem entryAt_pruned (d : Disk) (loc l : Location) :
    entryAt l (d.pruned loc).tree = if loc <+: l then none else entryAt l d.tree := by
  rw [pruned, FileTree.entryAt_prune]
  simp only [FileTree.isBelow_iff]

theorem within_prune (loc : Location) (tree : FileTree) : FileTree.Within (FileTree.prune loc tree) tree :=
  FileTree.within_filter (fun l => !isBelow loc l) tree

theorem erase_emptyAt (d : Disk) (loc : Location) :
    FileTree.erase loc (d.emptyAt loc).tree = FileTree.prune loc d.tree := by
  unfold FileTree.erase FileTree.prune emptyAt
  rw [List.filter_filter]
  refine List.filter_congr fun item _ => ?_
  by_cases h : item.1 = loc
  · have : isBelow loc loc = true := FileTree.isBelow_iff.2 (List.prefix_refl loc)
    simp [h, this]
  · simp [h]

theorem isEmptyDir_emptyAt (d : Disk) (loc : Location) :
    FileTree.isEmptyDir loc (d.emptyAt loc).tree = true := by
  unfold FileTree.isEmptyDir
  rw [List.isEmpty_iff, FileTree.names, List.filterMap_eq_nil_iff]
  intro item hitem
  split
  · rename_i name hbelow
    have hloc := FileTree.below?_eq_some.1 hbelow
    have hkeep := (List.mem_filter.1 hitem).2
    rw [hloc] at hkeep
    have hfront : isBelow loc (loc ++ [name]) = true := FileTree.isBelow_iff.2 (List.prefix_append _ _)
    simp [hfront] at hkeep
  · rfl

theorem entryAt_emptyAt (d : Disk) {loc l : Location} (h : l <+: loc) :
    entryAt l (d.emptyAt loc).tree = entryAt l d.tree := by
  rw [emptyAt, FileTree.entryAt_filter fun l => !(isBelow loc l && l != loc)]
  by_cases hl : l = loc
  · simp [hl]
  · have hnot : isBelow loc l = false := by
      rw [Bool.eq_false_iff]
      intro hbelow
      exact hl (h.eq_of_length_le (FileTree.isBelow_iff.1 hbelow).length_le)
    simp [hnot]

/-- A directory that a straight path leads to is removed with all below it. -/
theorem removeTree_directory {d : Disk} {p : Path} {loc : Location} (hp : p.Straight)
    (h : d.place p = .ok (.entry loc .directory)) : d.removeTree p = (d.pruned loc, .ok ()) := by
  have hloc : loc = d.start p.anchor ++ p.parts := location_of_straight hp h
  have hplace : (d.emptyAt loc).place p = .ok (.entry loc .directory) := by
    have hsame : (d.emptyAt loc).place p = d.place p := by
      refine place_congr_of_straight hp rfl fun l hl => ?_
      rw [← hloc] at hl
      exact entryAt_emptyAt d hl
    rw [hsame, h]
  unfold removeTree
  rw [h]
  simp only
  unfold removeDirectory
  rw [hplace]
  simp only
  rw [if_pos (isEmptyDir_emptyAt d loc), erase_emptyAt]
  rfl

/-- Nothing is left at a straight path to a directory that has been removed. -/
theorem exists?_pruned {d : Disk} {p : Path} {loc : Location} (hp : p.Straight)
    (h : d.place p = .ok (.entry loc .directory)) : (d.pruned loc).exists? p = .ok false := by
  have hwithin : FileTree.Within (d.pruned loc).tree d.tree := within_prune loc d.tree
  have hhere : (d.pruned loc).here = d.here := rfl
  rw [exists?_eq_false]
  cases hplace : (d.pruned loc).place p with
  | ok q =>
    cases q with
    | vacant l => exact look_of_vacant hplace
    | entry l e =>
      have hd := place_entry_of_within hhere hwithin hplace
      rw [h] at hd
      cases hd
      have hentry := entryAt_of_place hp hplace
      rw [entryAt_pruned, if_pos (List.prefix_refl loc)] at hentry
      cases hentry
  | error e =>
    unfold look
    rw [hplace]
    split
    · rename_i heq
      cases heq
    · rename_i heq
      cases heq
    · rename_i heq
      cases heq
      have hd := place_nameTooLong_of_within hhere hwithin hplace
      rw [h] at hd
      cases hd
    · rfl

end Disk

/-! ## Writing -/

/-- Two trees have the same directories. -/
def FileTree.SameDirectories (tree tree' : FileTree) : Prop :=
  ∀ loc, entryAt loc tree' = some .directory ↔ entryAt loc tree = some .directory

theorem FileTree.walk_ne_directory {tree : FileTree} {dir loc : Location} {part : Text} {rest : List Text}
    (hdots : part ≠ ['.', '.']) (h : entryAt (dir ++ [part]) tree ≠ some .directory) :
    walk tree dir (part :: rest) ≠ .ok (.entry loc .directory) := by
  rw [FileTree.walk_cons, if_neg hdots]
  split
  · simp
  · rcases he : entryAt (dir ++ [part]) tree with _ | _ | ⟨bytes, stamp⟩
    · simp only
      split <;> simp
    · exact absurd he h
    · simp only
      split <;> simp

/-- A walk leads to a directory in a tree where it does so in each other tree with the same directories. -/
theorem FileTree.SameDirectories.walk {tree tree' : FileTree} (h : SameDirectories tree tree')
    {dir loc : Location} {parts : List Text} :
    walk tree' dir parts = .ok (.entry loc .directory) ↔ walk tree dir parts = .ok (.entry loc .directory) := by
  induction parts generalizing dir with
  | nil => exact Iff.rfl
  | cons part rest ih =>
    by_cases hdots : part = ['.', '.']
    · rw [walk_cons, walk_cons, if_pos hdots, if_pos hdots]
      exact ih
    · by_cases hdir : entryAt (dir ++ [part]) tree = some .directory
      · rw [walk_cons, walk_cons, if_neg hdots, if_neg hdots, hdir, (h _).2 hdir]
        by_cases hsize : Utf8.size part > nameLimit
        · rw [if_pos hsize, if_pos hsize]
        · rw [if_neg hsize, if_neg hsize]
          exact ih
      · have hdir' : entryAt (dir ++ [part]) tree' ≠ some .directory := fun hc => hdir ((h _).1 hc)
        exact iff_of_false (walk_ne_directory hdots hdir') (walk_ne_directory hdots hdir)

namespace Disk

theorem place_directory_congr {d d' : Disk} (h : FileTree.SameDirectories d.tree d'.tree)
    (hhere : d'.here = d.here) {p : Path} {loc : Location} :
    d'.place p = .ok (.entry loc .directory) ↔ d.place p = .ok (.entry loc .directory) := by
  by_cases hnul : p.hasNul = true
  · rw [place_of_hasNul hnul, place_of_hasNul hnul]
  · have hs := start_congr hhere p.anchor
    constructor
    · intro hp
      obtain ⟨hdir, hw⟩ := walk_of_place hp
      rw [hs] at hdir hw
      rw [place_eq_walk hnul, (h _).1 hdir]
      simp only [h.walk.1 hw]
    · intro hp
      obtain ⟨hdir, hw⟩ := walk_of_place hp
      rw [place_eq_walk hnul, hs, (h _).2 hdir]
      simp only [h.walk.2 hw]

theorem isDirectory_eq_true {d : Disk} {p : Path} :
    d.isDirectory p = .ok true ↔ ∃ loc, d.place p = .ok (.entry loc .directory) := by
  constructor
  · intro h
    unfold isDirectory at h
    cases hl : d.look p with
    | error e =>
      rw [hl] at h
      cases h
    | ok r =>
      rw [hl] at h
      match r, h with
      | some .directory, _ => exact place_of_look hl
      | some (.file _ _), h => cases h
      | none, h => cases h
  · rintro ⟨loc, h⟩
    rw [isDirectory, look_of_place h]
    rfl

theorem isDirectory_of_list {d : Disk} {p : Path} {names : List Text} (h : d.list p = .ok names) :
    d.isDirectory p = .ok true := by
  unfold list at h
  split at h
  · exact isDirectory_eq_true.2 ⟨_, ‹_›⟩
  all_goals cases h

theorem isDirectory_of_place_child {d : Disk} {p : Path} {name : Text} {q : Place} (hdots : name ≠ ['.', '.'])
    (hnul : '\x00' ∉ name) (h : d.place (p.child name) = .ok q) : d.isDirectory p = .ok true := by
  rw [place_child hdots hnul] at h
  rcases hp : d.place p with (⟨flaw, path⟩ | _) | ⟨l, _ | ⟨bytes, stamp⟩⟩ | l
  · rw [hp] at h
    cases h
  · rw [hp] at h
    cases h
  · exact isDirectory_eq_true.2 ⟨l, hp⟩
  · rw [hp] at h
    cases h
  · rw [hp] at h
    cases h

theorem isDirectory_congr {d d' : Disk} (h : FileTree.SameDirectories d.tree d'.tree)
    (hhere : d'.here = d.here) {p : Path} : d'.isDirectory p = .ok true ↔ d.isDirectory p = .ok true := by
  rw [isDirectory_eq_true, isDirectory_eq_true]
  exact exists_congr fun loc => place_directory_congr h hhere

theorem isFile_ne_of_isDirectory {d : Disk} {p : Path} (h : d.isDirectory p = .ok true) :
    d.isFile p ≠ .ok true := by
  obtain ⟨loc, hp⟩ := isDirectory_eq_true.1 h
  rw [isFile, look_of_place hp]
  intro hc
  cases hc

theorem store_sameDirectories {d : Disk} {loc : Location} (h : entryAt loc d.tree ≠ some .directory)
    (bytes : Bytes) : FileTree.SameDirectories d.tree (d.store loc bytes).tree := by
  intro l
  by_cases hl : l = loc
  · rw [hl, store, FileTree.entryAt_put_self]
    exact ⟨fun hc => (by cases hc), fun hc => absurd hc h⟩
  · rw [store, FileTree.entryAt_put_of_ne hl]

theorem writeBytes_eq_store {d d' : Disk} {p : Path} {bytes : Bytes} (h : d.writeBytes p bytes = .ok d') :
    ∃ loc, d' = d.store loc bytes ∧
      (d.place p = .ok (.vacant loc) ∨ ∃ old stamp, d.place p = .ok (.entry loc (.file old stamp))) := by
  unfold writeBytes at h
  split at h
  · rename_i loc old stamp hp
    cases h
    exact ⟨loc, rfl, .inr ⟨old, stamp, hp⟩⟩
  · cases h
  · rename_i loc hp
    cases h
    exact ⟨loc, rfl, .inl hp⟩
  · cases h

theorem writeBytes_sameDirectories {d d' : Disk} {p : Path} {bytes : Bytes}
    (h : d.writeBytes p bytes = .ok d') :
    FileTree.SameDirectories d.tree d'.tree ∧ d'.here = d.here := by
  obtain ⟨loc, rfl, hplace⟩ := writeBytes_eq_store h
  refine ⟨store_sameDirectories ?_ bytes, rfl⟩
  rcases hplace with hp | ⟨old, stamp, hp⟩
  · exact ne_directory_of_vacant hp
  · exact ne_directory_of_file hp

/-! ## Making directories -/

theorem makeDirectory_vacant {d : Disk} {p : Path} {loc : Location} (h : d.place p = .ok (.vacant loc)) :
    d.makeDirectory p = .ok { d with tree := FileTree.put loc .directory d.tree } := by
  rw [makeDirectory, h]

theorem ensureDirectory_directory {d : Disk} {p : Path} {loc : Location}
    (h : d.place p = .ok (.entry loc .directory)) : d.ensureDirectory p = .ok d := by
  have hdir : d.isDirectory p = .ok true := isDirectory_eq_true.2 ⟨loc, h⟩
  rw [ensureDirectory, makeDirectory, h]
  simp only [hdir]

theorem ensureDirectories_of_not_missing {d : Disk} {p : Path}
    (h : ∀ path, d.makeDirectory p ≠ .error (.flaw .missing path)) :
    d.ensureDirectories p =
      match d.ensureDirectory p with
      | .ok d' => (d', .ok ())
      | .error e => (d, .error e) := by
  unfold ensureDirectories
  cases p.parts.length with
  | zero => rfl
  | succ depth =>
    unfold ensureDirectoriesTo
    split
    · rename_i path hm
      exact absurd hm (h path)
    · rfl

theorem exists_error_of_makeDirectory {d : Disk} {p : Path} {e : FileProblem} (hmake : d.makeDirectory p = .error e)
    (hdir : ∀ loc, d.place p ≠ .ok (.entry loc .directory)) : ∃ e, d.ensureDirectory p = .error e := by
  rw [ensureDirectory, hmake]
  cases e with
  | nulByte => exact ⟨_, rfl⟩
  | flaw flaw path =>
    simp only
    split
    · rename_i hd
      obtain ⟨loc, hp⟩ := isDirectory_eq_true.1 hd
      exact absurd hp (hdir loc)
    · exact ⟨_, rfl⟩
    · exact ⟨_, rfl⟩

/-- What becomes of a name in a directory when a directory is made there: one is made, one stood there, or
nothing is done. -/
theorem ensureDirectories_child {d : Disk} {p : Path} {name : Text} {loc : Location}
    (hname : Path.PlainName name) (h : d.place p = .ok (.entry loc .directory)) :
    (d.place (p.child name) = .ok (.vacant (loc ++ [name])) ∧ d.ensureDirectories (p.child name) =
        ({ d with tree := FileTree.put (loc ++ [name]) .directory d.tree }, .ok ())) ∨
      (d.isDirectory (p.child name) = .ok true ∧ d.ensureDirectories (p.child name) = (d, .ok ())) ∨
      ∃ e, d.ensureDirectories (p.child name) = (d, .error e) := by
  have hmissing : ∀ path, d.makeDirectory (p.child name) ≠ .error (.flaw .missing path) := by
    intro path hm
    rw [makeDirectory] at hm
    rcases place_child_cases hname h with hp | hp | ⟨e, hp⟩ <;> rw [hp] at hm <;> cases hm
  rw [ensureDirectories_of_not_missing hmissing]
  rcases place_child_cases hname h with hp | hp | ⟨e, hp⟩
  · obtain ⟨e, he⟩ := exists_error_of_makeDirectory (d := d) (p := p.child name) (by rw [makeDirectory, hp])
      fun l hl => nomatch hp.symm.trans hl
    exact .inr (.inr ⟨e, by rw [he]⟩)
  · exact .inl ⟨hp, by rw [ensureDirectory, makeDirectory_vacant hp]⟩
  · cases e with
    | directory => exact .inr (.inl ⟨isDirectory_eq_true.2 ⟨_, hp⟩, by rw [ensureDirectory_directory hp]⟩)
    | file bytes stamp =>
      obtain ⟨e, he⟩ := exists_error_of_makeDirectory (d := d) (p := p.child name) (by rw [makeDirectory, hp])
        fun l hl => nomatch hp.symm.trans hl
      exact .inr (.inr ⟨e, by rw [he]⟩)

end Disk
end Sitewright
