import Sitewright.Proofs.File.Copying
/-!
# Directories that stay

Writing and copying never take a directory away. Only a removal does, and it takes none but those at and
below the location that its path leads to, whatever double dots the path is written with.

Main statements: one lemma for each operation (`retains_copyTree`, `retains_removeTree`), and
`Retains.isDirectory`.
-/
set_option autoImplicit false

namespace Sitewright

open FileTree (Place walk entryAt nameLimit isBelow)

/-- The working directory is kept, and so is every directory outside a class of locations. -/
structure Disk.Retains (T : Location → Prop) (d d' : Disk) : Prop where
  here : d'.here = d.here
  directory : ∀ loc, ¬ T loc → entryAt loc d.tree = some .directory → entryAt loc d'.tree = some .directory

namespace Disk

variable {T T' S : Location → Prop} {d d' d'' : Disk} {loc : Location} {p : Path}

theorem Retains.refl (T : Location → Prop) (d : Disk) : Retains T d d := ⟨rfl, fun _ _ h => h⟩

theorem Retains.trans (h : Retains T d d') (h' : Retains T d' d'') : Retains T d d'' := by
  refine ⟨h'.here.trans h.here, fun loc hT hdir => ?_⟩
  have hmid := h.directory loc hT hdir
  exact h'.directory loc hT hmid

theorem Retains.mono (h : Retains T d d') (hT : ∀ loc, T loc → T' loc) : Retains T' d d' := by
  refine ⟨h.here, fun loc hloc hdir => ?_⟩
  apply h.directory loc _ hdir
  intro hc
  exact hloc (hT loc hc)

theorem Changes.retains (h : Changes T S d d') : Retains T d d' :=
  ⟨h.here, fun loc hT hdir => (h.directory loc hT).2 hdir⟩

/-! ## Looking at what stayed -/

theorem Retains.walk (h : Retains T d d') {dir loc : Location} {parts : List Text} (hdots : ['.', '.'] ∉ parts)
    (hspared : ∀ l, l <+: dir ++ parts → ¬ T l) (hw : walk d.tree dir parts = .ok (.entry loc .directory)) :
    FileTree.walk d'.tree dir parts = .ok (.entry loc .directory) := by
  induction parts generalizing dir with
  | nil => exact hw
  | cons part rest ih =>
    rw [List.mem_cons, not_or] at hdots
    have hassoc : dir ++ part :: rest = dir ++ [part] ++ rest := by simp
    have hstands : entryAt (dir ++ [part]) d.tree = some .directory := by
      by_contra hne
      exact FileTree.walk_ne_directory (Ne.symm hdots.1) hne hw
    have hfree : ¬ T (dir ++ [part]) := by
      apply hspared
      rw [hassoc]
      exact List.prefix_append _ _
    rw [FileTree.walk_cons, if_neg (Ne.symm hdots.1), hstands] at hw
    rw [FileTree.walk_cons, if_neg (Ne.symm hdots.1), h.directory _ hfree hstands]
    by_cases hsize : Utf8.size part > nameLimit
    · rw [if_pos hsize] at hw
      cases hw
    · rw [if_neg hsize] at hw ⊢
      rw [hassoc] at hspared
      exact ih hdots.2 hspared hw

/-- A directory is found where it was if it and those above it stay. -/
theorem Retains.isDirectory (h : Retains T d d') (hloc : PlainNames loc) (hT : Spares T loc)
    (hd : d.isDirectory (.ofLocation loc) = .ok true) : d'.isDirectory (.ofLocation loc) = .ok true := by
  obtain ⟨l, hp⟩ := isDirectory_eq_true.1 hd
  obtain ⟨hroot, hw⟩ := walk_of_place_ok hp
  have hroot' : entryAt [] d'.tree = some .directory := h.directory [] (hT [] List.nil_prefix) hroot
  have hw' : FileTree.walk d'.tree [] loc = .ok (.entry l .directory) := h.walk hloc.straight hT hw
  exact isDirectory_eq_true.2 ⟨l, place_of_walk_ok hloc hroot' hw'⟩

theorem place_of_isDirectory (hloc : PlainNames loc) (h : d.isDirectory (.ofLocation loc) = .ok true) :
    d.place (.ofLocation loc) = .ok (.entry loc .directory) := by
  obtain ⟨l, hp⟩ := isDirectory_eq_true.1 h
  have hl : l = loc := location_ofLocation hloc hp
  rw [hp, hl]

theorem place_in_directory {name : Text} (hname : Path.PlainName name) (hloc : PlainNames loc)
    (h : d.isDirectory (.ofLocation loc) = .ok true) (hsize : ¬ Utf8.size name > nameLimit) :
    d.place (.ofLocation (loc ++ [name])) =
      match entryAt (loc ++ [name]) d.tree with
      | none => .ok (.vacant (loc ++ [name]))
      | some e => .ok (.entry (loc ++ [name]) e) := by
  exact (place_child_of_directory hname (place_of_isDirectory hloc h)).trans (if_neg hsize)

/-- A file in a directory is there where its directory is found and its name fits. -/
theorem isFile_child_iff {name : Text} (hname : Path.PlainName name) (hloc : PlainNames loc)
    (h : d.isDirectory (.ofLocation loc) = .ok true) :
    d.isFile (.ofLocation (loc ++ [name])) = .ok true ↔
      ¬ Utf8.size name > nameLimit ∧ HoldsFile d (loc ++ [name]) := by
  constructor
  · intro hfile
    obtain ⟨l, bytes, stamp, hp⟩ := place_of_isFile hfile
    have hsize : Utf8.size name ≤ nameLimit :=
      short_of_place hp name (List.mem_append_right _ (List.mem_singleton_self _))
    have hl : l = loc ++ [name] := location_ofLocation (hloc.child hname) hp
    exact ⟨by omega, bytes, stamp, hl ▸ place_file hp⟩
  · rintro ⟨hsize, bytes, stamp, hentry⟩
    have hplace := place_in_directory hname hloc h hsize
    rw [hentry] at hplace
    exact isFile_of_place hplace

theorem Changes.isFile_kept (h : Changes T S d d') {name : Text} (hloc : PlainNames loc) (hname : Path.PlainName name)
    (hT : Spares T (loc ++ [name])) (hstanding : d.isDirectory (.ofLocation loc) = .ok true)
    (hfile : d.isFile (.ofLocation (loc ++ [name])) = .ok true) :
    d'.isFile (.ofLocation (loc ++ [name])) = .ok true := by
  have hstanding' : d'.isDirectory (.ofLocation loc) = .ok true :=
    h.retains.isDirectory hloc (fun l hl => hT l (hl.trans (List.prefix_append _ _))) hstanding
  obtain ⟨hsize, hholds⟩ := (isFile_child_iff hname hloc hstanding).1 hfile
  exact (isFile_child_iff hname hloc hstanding').2 ⟨hsize, h.file _ (hT _ (List.prefix_refl _)) hholds⟩

/-! ## Putting and writing -/

theorem retains_put {e : Entry} {clock : Nat} (h : entryAt loc d.tree ≠ some .directory ∨ e = .directory) :
    Retains T d { d with tree := FileTree.put loc e d.tree, clock := clock } := by
  refine ⟨rfl, fun l _ hdir => ?_⟩
  by_cases hl : l = loc
  · subst hl
    rcases h with hne | rfl
    · exact absurd hdir hne
    · exact FileTree.entryAt_put_self l .directory d.tree
  · exact (FileTree.entryAt_put_of_ne hl e d.tree).trans hdir

/-- A file is put where no directory stands. -/
theorem changes_putFile {clock : Nat} (hloc : PlainNames loc) (h : entryAt loc d.tree ≠ some .directory) (hS : S loc)
    (bytes : Bytes) (stamp : Stamp) :
    Changes T S d { d with tree := FileTree.put loc (.file bytes stamp) d.tree, clock := clock } := by
  have hother : ∀ l, l ≠ loc → entryAt l (FileTree.put loc (.file bytes stamp) d.tree) = entryAt l d.tree :=
    fun l hl => FileTree.entryAt_put_of_ne hl _ d.tree
  have hself := FileTree.entryAt_put_self loc (.file bytes stamp) d.tree
  refine ⟨rfl, fun l _ hl => hother l fun hc => hl (hc ▸ hS), fun l _ => ?_, fun l _ hfile => ?_,
    fun hd => hd.put hloc _⟩
  · by_cases hl : l = loc
    · subst hl
      exact ⟨fun hc => absurd (hself.symm.trans hc) (by simp), fun hc => absurd hc h⟩
    · rw [hother l hl]
  · by_cases hl : l = loc
    · exact ⟨bytes, stamp, hl ▸ hself⟩
    · obtain ⟨old, time, hold⟩ := hfile
      exact ⟨old, time, (hother l hl).trans hold⟩

theorem retains_writeBytes {bytes : Bytes} (h : d.writeBytes p bytes = .ok d') : Retains T d d' := by
  obtain ⟨hsame, hhere⟩ := writeBytes_sameDirectories h
  exact ⟨hhere, fun loc _ hdir => (hsame loc).2 hdir⟩

theorem exists_of_copyBytes {q : Path} (h : d.copyBytes p q = .ok d') :
    ∃ bytes, d.readBytes p = .ok bytes ∧ d.writeBytes q bytes = .ok d' := by
  unfold copyBytes at h
  cases hread : d.readBytes p with
  | error e =>
    rw [hread] at h
    cases h
  | ok bytes =>
    rw [hread] at h
    exact ⟨bytes, rfl, h⟩

theorem retains_copyBytes {q : Path} (h : d.copyBytes p q = .ok d') : Retains T d d' := by
  obtain ⟨bytes, -, hwrite⟩ := exists_of_copyBytes h
  exact retains_writeBytes hwrite

/-! ## Making directories -/

theorem retains_makeDirectory (h : d.makeDirectory p = .ok d') : Retains T d d' := by
  unfold makeDirectory at h
  split at h
  · rename_i loc hp
    cases h
    exact retains_put (.inr rfl)
  · cases h
  · cases h

theorem retains_ensureDirectory (h : d.ensureDirectory p = .ok d') : Retains T d d' := by
  unfold ensureDirectory at h
  split at h
  · rename_i made hmade
    cases h
    exact retains_makeDirectory hmade
  · split at h
    · cases h
      exact .refl T d
    · cases h
    · cases h
  · cases h

theorem retains_ensureDirectoriesTo (d : Disk) (p : Path) (depth : Nat) :
    Retains T d (d.ensureDirectoriesTo p depth).1 := by
  have hone : ∀ (d : Disk) (q : Path), Retains T d (d.ensureDirectoriesTo q 0).1 := by
    intro d q
    unfold ensureDirectoriesTo
    cases h : d.ensureDirectory q with
    | ok d' => exact retains_ensureDirectory h
    | error e => exact .refl T d
  induction depth generalizing d p with
  | zero => exact hone d p
  | succ depth ih =>
    unfold ensureDirectoriesTo
    split
    · have habove := ih d p.parent
      rcases hrun : d.ensureDirectoriesTo p.parent depth with ⟨d₁, e | u⟩
      · rw [hrun] at habove
        exact habove
      · rw [hrun] at habove
        exact habove.trans (hone d₁ p)
    · exact hone d p

theorem retains_ensureDirectories (d : Disk) (p : Path) : Retains T d (d.ensureDirectories p).1 :=
  retains_ensureDirectoriesTo d p _

/-- A directory is made only in one that is there. -/
theorem isDirectory_of_ensureDirectory {name : Text} (hname : Path.PlainName name)
    (h : d.ensureDirectory (p.child name) = .ok d') : d.isDirectory p = .ok true := by
  unfold ensureDirectory at h
  split at h
  · rename_i made hmade
    unfold makeDirectory at hmade
    split at hmade
    · rename_i l hp
      exact isDirectory_of_place_child hname.not_dots hname.noNul hp
    · cases hmade
    · cases hmade
  · split at h
    · rename_i hdir
      obtain ⟨l, hp⟩ := isDirectory_eq_true.1 hdir
      exact isDirectory_of_place_child hname.not_dots hname.noNul hp
    · cases h
    · cases h
  · cases h

/-- A directory is made with those above it by making it once those are there. -/
theorem exists_of_ensureDirectories (h : d.ensureDirectories p = (d', .ok ())) :
    ∃ d₁, Retains T d d₁ ∧ d₁.ensureDirectory p = .ok d' := by
  have hone : ∀ {d₁ : Disk}, d₁.ensureDirectoriesTo p 0 = (d', .ok ()) → d₁.ensureDirectory p = .ok d' := by
    intro d₁ h
    unfold ensureDirectoriesTo at h
    cases hmade : d₁.ensureDirectory p with
    | error e =>
      rw [hmade] at h
      cases h
    | ok d₂ =>
      rw [hmade] at h
      cases h
      rfl
  unfold ensureDirectories at h
  cases hdepth : p.parts.length with
  | zero =>
    rw [hdepth] at h
    exact ⟨d, .refl T d, hone h⟩
  | succ depth =>
    rw [hdepth, ensureDirectoriesTo] at h
    split at h
    · have habove : Retains T d (d.ensureDirectoriesTo p.parent depth).1 := retains_ensureDirectoriesTo d _ _
      rcases hrun : d.ensureDirectoriesTo p.parent depth with ⟨d₁, e | u⟩
      · rw [hrun] at h
        cases h
      · rw [hrun] at h habove
        exact ⟨d₁, habove, hone h⟩
    · exact ⟨d, .refl T d, hone h⟩

theorem isDirectory_of_ensureDirectories {name : Text} (hloc : PlainNames loc) (hname : Path.PlainName name)
    (h : d.ensureDirectories (.ofLocation (loc ++ [name])) = (d', .ok ())) :
    d'.isDirectory (.ofLocation loc) = .ok true := by
  obtain ⟨d₁, -, hlast⟩ := exists_of_ensureDirectories (T := Nowhere) h
  have habove : d₁.isDirectory (.ofLocation loc) = .ok true := isDirectory_of_ensureDirectory hname hlast
  exact (retains_ensureDirectory hlast).isDirectory hloc (spares_nowhere loc) habove

/-! ## Copying -/

theorem retains_copyInto {source target : Path} (h : d.copyInto source target = .ok d') : Retains T d d' := by
  obtain ⟨q, bytes, stamp, -, hne, rfl⟩ := exists_of_copyInto h
  exact retains_put (.inl hne)

theorem retains_copyFile (d : Disk) (source target : Path) : Retains T d (d.copyFile source target).1 := by
  rcases copyFile_cases d source target with hdisk | ⟨inside, -, hcopy⟩
  · rw [hdisk]
    exact .refl T d
  · exact retains_copyInto hcopy

theorem retains_copyEntry {source target : Path} {depth : Nat} (state : Disk × List CopyNote) (name : Text)
    (h : Retains T state.1 (state.1.copyTreeTo (source.child name) (target.child name) depth).1) :
    Retains T state.1 (copyEntry source target depth state name).1 := by
  unfold copyEntry
  simp only
  split
  · split
    · rename_i hrun
      rw [hrun] at h
      exact h
    · rename_i hrun
      rw [hrun] at h
      exact h
    · rename_i hrun
      rw [hrun] at h
      exact h
  · exact retains_copyFile state.1 _ _

theorem retains_copyTreeTo (d : Disk) (source target : Path) (depth : Nat) :
    Retains T d (d.copyTreeTo source target depth).1 := by
  induction depth generalizing d source target with
  | zero => exact .refl T d
  | succ depth ih =>
    rw [copyTreeTo_succ]
    cases d.list source with
    | error e => exact .refl T d
    | ok names =>
      have hmade : Retains T d (d.ensureDirectories target).1 := retains_ensureDirectories d target
      rcases hrun : d.ensureDirectories target with ⟨d₁, e | u⟩
      · rw [hrun] at hmade
        exact hmade
      · rw [hrun] at hmade
        -- The invariant of the loop over the names: the disk so far retains what the first one had.
        have hstart : Retains T d ((d₁, []) : Disk × List CopyNote).1 := hmade
        refine List.foldlRecOn names (copyEntry source target depth)
          (motive := fun state => Retains T d state.1) hstart fun state hstate name _ => ?_
        exact hstate.trans (retains_copyEntry state name (ih state.1 _ _))

theorem retains_copyTree (d : Disk) (source target : Path) : Retains T d (d.copyTree source target).1 :=
  retains_copyTreeTo d source target _

/-! ## Removing -/

/-- A removal takes what stands at and below the location of its path. -/
theorem retains_removeTree (d : Disk) (p : Path) :
    Retains (fun l => p.resolve d.here <+: l) d (d.removeTree p).1 := by
  unfold removeTree
  split
  · rename_i loc hp
    have hloc : loc = p.resolve d.here := location_place hp
    have hempty : Retains (fun l => p.resolve d.here <+: l) d (d.emptyAt loc) := by
      refine ⟨rfl, fun l hl hdir => ?_⟩
      have hnot : isBelow loc l = false := by
        rw [Bool.eq_false_iff]
        intro hbelow
        rw [hloc] at hbelow
        exact hl (FileTree.isBelow_iff.1 hbelow)
      rw [emptyAt, FileTree.entryAt_filter fun l => !(isBelow loc l && l != loc)]
      simp [hnot, hdir]
    simp only
    split
    · rename_i d' hr
      refine hempty.trans ?_
      unfold removeDirectory at hr
      split at hr
      · rename_i top hq
        -- The path is followed once more, on the emptied disk; the location is the same.
        have htop : top = p.resolve d.here := location_place hq
        split at hr
        · cases hr
          refine ⟨rfl, fun l hl hdir => ?_⟩
          have hne : l ≠ top := by
            rintro rfl
            rw [htop] at hl
            exact hl (List.prefix_refl _)
          exact (FileTree.entryAt_erase_of_ne hne _).trans hdir
        · cases hr
      · cases hr
      · cases hr
      · cases hr
    · exact hempty
  · exact .refl _ d
  · exact .refl _ d
  · exact .refl _ d

end Disk
end Sitewright
