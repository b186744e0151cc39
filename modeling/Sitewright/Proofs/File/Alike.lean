import Sitewright.Proofs.Coupling
import Sitewright.Proofs.File.Copying
import Sitewright.Proofs.Text.Order
/-!
# Two disks side by side

Two disks are alike if the same stands at every location, times apart; the files at the locations of some class
may hold different bytes. Alike disks answer every question in the same way, but for what those files hold, and
every operation ends in the same way on both and leaves them alike. What is written to a file of the class is
the same on both, so the file leaves the class.

* `Alike`: the relation.

Main statements: `Alike.place`, from which the answers to all questions follow, and a lemma for each operation
(`Alike.writeBytes`, `Alike.removeTree`, `Alike.copyTree`).
-/
set_option autoImplicit false

namespace Sitewright

open FileTree (Place walk entryAt nameLimit isBelow)

/-! ## What stands at a location -/

/-- What an entry holds, its time apart: the bytes of a file. -/
def Entry.content : Entry → Option Bytes
  | .directory => none
  | .file bytes _ => some bytes

namespace FileTree

/-- What stands at a location, times apart. -/
def contentAt (loc : Location) (tree : FileTree) : Option (Option Bytes) := (entryAt loc tree).map Entry.content

/-- Whether a file or a directory stands at a location. -/
def kindAt (loc : Location) (tree : FileTree) : Option Bool := (contentAt loc tree).map Option.isSome

variable {loc l : Location} {tree : FileTree}

theorem kindAt_eq_none : kindAt loc tree = none ↔ entryAt loc tree = none := by
  simp [kindAt, contentAt]

theorem kindAt_eq_directory : kindAt loc tree = some false ↔ entryAt loc tree = some .directory := by
  unfold kindAt contentAt
  rcases entryAt loc tree with _ | _ | ⟨bytes, stamp⟩ <;> simp [Entry.content]

theorem kindAt_eq_file : kindAt loc tree = some true ↔ ∃ bytes stamp, entryAt loc tree = some (.file bytes stamp) := by
  unfold kindAt contentAt
  rcases entryAt loc tree with _ | _ | ⟨bytes, stamp⟩ <;> simp [Entry.content]

theorem contentAt_put_self (e : Entry) : contentAt loc (put loc e tree) = some e.content := by
  rw [contentAt, entryAt_put_self, Option.map_some]

theorem contentAt_put_of_ne (h : l ≠ loc) (e : Entry) : contentAt l (put loc e tree) = contentAt l tree := by
  rw [contentAt, entryAt_put_of_ne h, contentAt]

theorem contentAt_filter (keep : Location → Bool) (loc : Location) (tree : FileTree) :
    contentAt loc (tree.filter fun item => keep item.1) = if keep loc then contentAt loc tree else none := by
  rw [contentAt, entryAt_filter]
  cases keep loc <;> rfl

theorem mem_keys : loc ∈ tree.map Prod.fst ↔ kindAt loc tree ≠ none := by
  rw [Ne, kindAt_eq_none, List.mem_map]
  constructor
  · rintro ⟨⟨l, e⟩, hmem, rfl⟩ hnone
    obtain ⟨e', he'⟩ := exists_entryAt hmem
    rw [hnone] at he'
    cases he'
  · intro h
    obtain ⟨e, he⟩ := Option.ne_none_iff_exists'.1 h
    exact ⟨(loc, e), entryAt_mem he, rfl⟩

theorem mem_names_iff_kindAt {dir : Location} {name : Text} :
    name ∈ names dir tree ↔ kindAt (dir ++ [name]) tree ≠ none := by
  rw [mem_names, Ne, kindAt_eq_none]
  exact Option.ne_none_iff_exists'.symm

end FileTree

open FileTree (contentAt kindAt Once)

/-- The same stands on two disks, but for what files hold at the locations of a class. -/
structure Disk.Alike (S : Location → Prop) (d d' : Disk) : Prop where
  here : d'.here = d.here
  once : Once d.tree
  once' : Once d'.tree
  kind : ∀ loc, kindAt loc d'.tree = kindAt loc d.tree
  content : ∀ loc, ¬ S loc → contentAt loc d'.tree = contentAt loc d.tree

namespace Disk

open Job (EndAlike)

variable {S S' : Location → Prop} {d d' : Disk} {loc : Location} {p : Path}

theorem Alike.symm (h : Alike S d d') : Alike S d' d :=
  ⟨h.here.symm, h.once', h.once, fun loc => (h.kind loc).symm, fun loc hS => (h.content loc hS).symm⟩

theorem Alike.mono (h : Alike S d d') (hS : ∀ l, S l → S' l) : Alike S' d d' := by
  refine ⟨h.here, h.once, h.once', h.kind, fun l hl => h.content l ?_⟩
  exact fun hc => hl (hS l hc)

theorem Alike.put (h : Alike S d d') {e e' : Entry} (he : e'.content = e.content) (loc : Location) (n n' : Nat) :
    Alike (fun l => S l ∧ l ≠ loc) { d with tree := FileTree.put loc e d.tree, clock := n }
      { d' with tree := FileTree.put loc e' d'.tree, clock := n' } := by
  have hcontent : ∀ l, ¬ (S l ∧ l ≠ loc) →
      contentAt l (FileTree.put loc e' d'.tree) = contentAt l (FileTree.put loc e d.tree) := by
    intro l hl
    by_cases heq : l = loc
    · rw [heq, FileTree.contentAt_put_self, FileTree.contentAt_put_self, he]
    · rw [FileTree.contentAt_put_of_ne heq, FileTree.contentAt_put_of_ne heq]
      exact h.content l fun hS => hl ⟨hS, heq⟩
  refine ⟨h.here, h.once.put loc e, h.once'.put loc e', fun l => ?_, hcontent⟩
  by_cases heq : l = loc
  · exact congrArg (Option.map Option.isSome) (hcontent l fun hc => hc.2 heq)
  · have hkind := h.kind l
    unfold FileTree.kindAt at hkind ⊢
    rw [FileTree.contentAt_put_of_ne heq, FileTree.contentAt_put_of_ne heq]
    exact hkind

theorem Alike.store (h : Alike S d d') (loc : Location) (bytes : Bytes) :
    Alike (fun l => S l ∧ l ≠ loc) (d.store loc bytes) (d'.store loc bytes) := by
  have hsame : (Entry.file bytes (.write d'.clock)).content = (Entry.file bytes (.write d.clock)).content := rfl
  exact h.put hsame loc _ _

theorem Alike.filter (h : Alike S d d') (keep : Location → Bool) :
    Alike S { d with tree := d.tree.filter fun item => keep item.1 }
      { d' with tree := d'.tree.filter fun item => keep item.1 } := by
  refine ⟨h.here, h.once.filter _, h.once'.filter _, fun l => ?_, fun l hl => ?_⟩
  · have hkind := h.kind l
    unfold FileTree.kindAt at hkind ⊢
    rw [FileTree.contentAt_filter keep, FileTree.contentAt_filter keep]
    split
    · exact hkind
    · rfl
  · rw [FileTree.contentAt_filter keep, FileTree.contentAt_filter keep, h.content l hl]

theorem Alike.content_file (h : Alike S d d') (hloc : ¬ S loc) {bytes bytes' : Bytes} {stamp stamp' : Stamp}
    (hd : entryAt loc d.tree = some (.file bytes stamp)) (hd' : entryAt loc d'.tree = some (.file bytes' stamp')) :
    bytes' = bytes := by
  have hcontent := h.content loc hloc
  rw [contentAt, contentAt, hd, hd'] at hcontent
  simpa [Entry.content] using hcontent

/-! ## Where paths lead -/

/-- Walks past the same kinds of entries end in the same way. -/
theorem walk_alike {tree tree' : FileTree} {dir : Location} {parts : List Text}
    (h : ∀ loc ∈ Path.passed dir parts, kindAt loc tree' = kindAt loc tree) :
    (∃ flaw, FileTree.walk tree dir parts = .error flaw ∧ FileTree.walk tree' dir parts = .error flaw) ∨
      (∃ loc, FileTree.walk tree dir parts = .ok (.vacant loc) ∧ FileTree.walk tree' dir parts = .ok (.vacant loc)) ∨
      (∃ loc, FileTree.walk tree dir parts = .ok (.entry loc .directory) ∧
        FileTree.walk tree' dir parts = .ok (.entry loc .directory)) ∨
      ∃ loc bytes stamp bytes' stamp', FileTree.walk tree dir parts = .ok (.entry loc (.file bytes stamp)) ∧
        FileTree.walk tree' dir parts = .ok (.entry loc (.file bytes' stamp')) := by
  induction parts generalizing dir with
  | nil => exact .inr (.inr (.inl ⟨dir, rfl, rfl⟩))
  | cons part rest ih =>
    rw [Path.passed] at h
    rw [FileTree.walk_cons, FileTree.walk_cons]
    by_cases hdots : part = ['.', '.']
    · rw [if_pos hdots] at h
      rw [if_pos hdots, if_pos hdots]
      exact ih h
    · rw [if_neg hdots] at h
      rw [if_neg hdots, if_neg hdots]
      by_cases hsize : Utf8.size part > nameLimit
      · rw [if_pos hsize, if_pos hsize]
        exact .inl ⟨_, rfl, rfl⟩
      · rw [if_neg hsize, if_neg hsize]
        have hkind := h (dir ++ [part]) List.mem_cons_self
        have hrest := ih fun loc hloc => h loc (List.mem_cons_of_mem _ hloc)
        -- only a directory is passed; at anything else the walk ends, or fails where parts are left
        rcases he : entryAt (dir ++ [part]) tree with _ | _ | ⟨bytes, stamp⟩
        · rw [FileTree.kindAt_eq_none.2 he, FileTree.kindAt_eq_none] at hkind
          rw [hkind]
          cases rest with
          | nil => exact .inr (.inl ⟨_, rfl, rfl⟩)
          | cons next rest => exact .inl ⟨_, rfl, rfl⟩
        · rw [FileTree.kindAt_eq_directory.2 he, FileTree.kindAt_eq_directory] at hkind
          rw [hkind]
          exact hrest
        · rw [FileTree.kindAt_eq_file.2 ⟨_, _, he⟩, FileTree.kindAt_eq_file] at hkind
          obtain ⟨bytes', stamp', he'⟩ := hkind
          rw [he']
          cases rest with
          | nil => exact .inr (.inr (.inr ⟨_, _, _, _, _, rfl, rfl⟩))
          | cons next rest => exact .inl ⟨_, rfl, rfl⟩

/-- A path leads to the same place on two disks, or nowhere for the same reason; a file there may differ. -/
def SamePlace (d d' : Disk) (p : Path) : Prop :=
  (∃ e, d.place p = .error e ∧ d'.place p = .error e) ∨
    (∃ loc, d.place p = .ok (.vacant loc) ∧ d'.place p = .ok (.vacant loc)) ∨
    (∃ loc, d.place p = .ok (.entry loc .directory) ∧ d'.place p = .ok (.entry loc .directory)) ∨
    ∃ loc bytes stamp bytes' stamp', d.place p = .ok (.entry loc (.file bytes stamp)) ∧
      d'.place p = .ok (.entry loc (.file bytes' stamp'))

theorem samePlace_of_kinds (hstart : d'.start p.anchor = d.start p.anchor)
    (hdir : kindAt (d.start p.anchor) d'.tree = kindAt (d.start p.anchor) d.tree)
    (h : ∀ loc ∈ Path.passed (d.start p.anchor) p.parts, kindAt loc d'.tree = kindAt loc d.tree) :
    SamePlace d d' p := by
  by_cases hnul : p.hasNul = true
  · exact .inl ⟨_, place_of_hasNul hnul, place_of_hasNul hnul⟩
  · by_cases hdirectory : entryAt (d.start p.anchor) d.tree = some .directory
    · have hdirectory' : entryAt (d.start p.anchor) d'.tree = some .directory := by
        rw [← FileTree.kindAt_eq_directory, hdir, FileTree.kindAt_eq_directory]
        exact hdirectory
      unfold SamePlace
      rw [place_eq_walk hnul, place_eq_walk hnul, hstart, hdirectory, hdirectory']
      simp only
      rcases walk_alike h with ⟨flaw, hw, hw'⟩ | ⟨loc, hw, hw'⟩ | ⟨loc, hw, hw'⟩ |
        ⟨loc, bytes, stamp, bytes', stamp', hw, hw'⟩
      · rw [hw, hw']
        exact .inl ⟨_, rfl, rfl⟩
      · rw [hw, hw']
        exact .inr (.inl ⟨_, rfl, rfl⟩)
      · rw [hw, hw']
        exact .inr (.inr (.inl ⟨_, rfl, rfl⟩))
      · rw [hw, hw']
        exact .inr (.inr (.inr ⟨_, _, _, _, _, rfl, rfl⟩))
    · have hdirectory' : entryAt (d'.start p.anchor) d'.tree ≠ some .directory := by
        rw [hstart, Ne, ← FileTree.kindAt_eq_directory, hdir, FileTree.kindAt_eq_directory]
        exact hdirectory
      exact .inl ⟨_, place_of_start hnul hdirectory, place_of_start hnul hdirectory'⟩

theorem SamePlace.isFile_eq (h : SamePlace d d' p) : d'.isFile p = d.isFile p := by
  unfold isFile look
  rcases h with ⟨e, hp, hp'⟩ | ⟨loc, hp, hp'⟩ | ⟨loc, hp, hp'⟩ | ⟨loc, b, s, b', s', hp, hp'⟩ <;>
    rw [hp, hp']
  rfl

theorem SamePlace.readBytes_eq (h : SamePlace d d' p) (hcontent : ∀ loc bytes stamp,
    d.place p = .ok (.entry loc (.file bytes stamp)) → contentAt loc d'.tree = contentAt loc d.tree) :
    d'.readBytes p = d.readBytes p := by
  unfold readBytes
  rcases h with ⟨e, hp, hp'⟩ | ⟨loc, hp, hp'⟩ | ⟨loc, hp, hp'⟩ | ⟨loc, b, s, b', s', hp, hp'⟩
  · rw [hp, hp']
  · rw [hp, hp']
  · rw [hp, hp']
  · have hsame := hcontent loc b s hp
    rw [contentAt, contentAt, place_file hp, place_file hp'] at hsame
    have hbytes : b' = b := by simpa [Entry.content] using hsame
    rw [hp, hp', hbytes]

/-- A path leads to the same place on alike disks. -/
theorem Alike.place (h : Alike S d d') (p : Path) : SamePlace d d' p := by
  exact samePlace_of_kinds (start_congr h.here _) (h.kind _) fun loc _ => h.kind loc

/-! ## Questions -/

theorem Alike.isFile_eq (h : Alike S d d') (p : Path) : d'.isFile p = d.isFile p := (h.place p).isFile_eq

theorem Alike.isDirectory_eq (h : Alike S d d') (p : Path) : d'.isDirectory p = d.isDirectory p := by
  unfold isDirectory look
  rcases h.place p with ⟨e, hp, hp'⟩ | ⟨loc, hp, hp'⟩ | ⟨loc, hp, hp'⟩ | ⟨loc, b, s, b', s', hp, hp'⟩ <;>
    rw [hp, hp']
  rfl

theorem Alike.exists?_eq (h : Alike S d d') (p : Path) : d'.exists? p = d.exists? p := by
  unfold exists? look
  rcases h.place p with ⟨e, hp, hp'⟩ | ⟨loc, hp, hp'⟩ | ⟨loc, hp, hp'⟩ | ⟨loc, b, s, b', s', hp, hp'⟩ <;>
    rw [hp, hp']
  rfl

theorem Alike.readBytes_eq (h : Alike S d d') (hp : ¬ S (p.resolve d.here)) : d'.readBytes p = d.readBytes p := by
  refine (h.place p).readBytes_eq fun loc bytes stamp hplace => ?_
  have hloc : loc = p.resolve d.here := location_place hplace
  exact h.content loc (hloc ▸ hp)

theorem Alike.sameEntry_eq (h : Alike S d d') (p q : Path) : d'.sameEntry p q = d.sameEntry p q := by
  unfold sameEntry
  rcases h.place p with ⟨e, hp, hp'⟩ | ⟨loc, hp, hp'⟩ | ⟨loc, hp, hp'⟩ | ⟨loc, b, s, b', s', hp, hp'⟩ <;>
  rcases h.place q with ⟨e, hq, hq'⟩ | ⟨loc, hq, hq'⟩ | ⟨loc, hq, hq'⟩ | ⟨loc, b, s, b', s', hq, hq'⟩ <;>
    rw [hp, hp', hq, hq']

theorem Alike.perm_names (h : Alike S d d') (dir : Location) :
    (FileTree.names dir d'.tree).Perm (FileTree.names dir d.tree) := by
  refine (List.perm_ext_iff_of_nodup (h.once'.nodup_names dir) (h.once.nodup_names dir)).2 fun name => ?_
  rw [FileTree.mem_names_iff_kindAt, FileTree.mem_names_iff_kindAt, h.kind]

theorem Alike.list_eq (h : Alike S d d') (p : Path) : d'.list p = d.list p := by
  unfold list
  rcases h.place p with ⟨e, hp, hp'⟩ | ⟨loc, hp, hp'⟩ | ⟨loc, hp, hp'⟩ | ⟨loc, b, s, b', s', hp, hp'⟩
  · rw [hp, hp']
  · rw [hp, hp']
  · rw [hp, hp']
    simp only
    rw [Text.sorted_eq_of_perm (h.perm_names loc)]
  · rw [hp, hp']

theorem Alike.length_tree (h : Alike S d d') : d'.tree.length = d.tree.length := by
  have hperm : (d'.tree.map Prod.fst).Perm (d.tree.map Prod.fst) := by
    refine (List.perm_ext_iff_of_nodup h.once' h.once).2 fun loc => ?_
    rw [FileTree.mem_keys, FileTree.mem_keys, h.kind]
  simpa using hperm.length_eq

/-! ## Writing -/

/-- What is written is the same on both disks, so the file leaves the class. -/
theorem Alike.writeBytes (h : Alike S d d') (p : Path) (bytes : Bytes) :
    EndAlike (Alike fun l => S l ∧ l ≠ p.resolve d.here) (d.writeBytes p bytes) (d'.writeBytes p bytes) := by
  have hstore : ∀ loc, loc = p.resolve d.here →
      Alike (fun l => S l ∧ l ≠ p.resolve d.here) (d.store loc bytes) (d'.store loc bytes) := by
    rintro loc rfl
    exact h.store _ bytes
  unfold Disk.writeBytes
  rcases h.place p with ⟨e, hp, hp'⟩ | ⟨loc, hp, hp'⟩ | ⟨loc, hp, hp'⟩ | ⟨loc, b, s, b', s', hp, hp'⟩
  · rw [hp, hp']
    exact .error e
  · rw [hp, hp']
    exact .ok (hstore loc (location_place hp))
  · rw [hp, hp']
    exact .error _
  · rw [hp, hp']
    exact .ok (hstore loc (location_place hp))

/-! ## Making directories -/

theorem Alike.makeDirectory (h : Alike S d d') (p : Path) :
    EndAlike (Alike S) (d.makeDirectory p) (d'.makeDirectory p) := by
  unfold Disk.makeDirectory
  rcases h.place p with ⟨e, hp, hp'⟩ | ⟨loc, hp, hp'⟩ | ⟨loc, hp, hp'⟩ | ⟨loc, b, s, b', s', hp, hp'⟩
  · rw [hp, hp']
    exact .error e
  · rw [hp, hp']
    refine .ok ?_
    have hput : Alike (fun l => S l ∧ l ≠ loc) { d with tree := FileTree.put loc .directory d.tree }
        { d' with tree := FileTree.put loc .directory d'.tree } := h.put rfl loc d.clock d'.clock
    exact hput.mono fun l hl => hl.1
  · rw [hp, hp']
    exact .error _
  · rw [hp, hp']
    exact .error _

theorem Alike.ensureDirectory (h : Alike S d d') (p : Path) :
    EndAlike (Alike S) (d.ensureDirectory p) (d'.ensureDirectory p) := by
  have hmade := h.makeDirectory p
  unfold Disk.ensureDirectory
  rw [h.isDirectory_eq p]
  generalize d.makeDirectory p = r at hmade ⊢
  generalize d'.makeDirectory p = q at hmade ⊢
  cases hmade with
  | ok hd => exact .ok hd
  | error e =>
    cases e with
    | nulByte => exact .error _
    | flaw flaw path =>
      simp only
      rcases d.isDirectory p with e | _ | _
      · exact .error _
      · exact .error _
      · exact .ok h

/-- Operations that end alike: with the same result, and on alike disks. -/
def EndsAlike {α : Type} (S : Location → Prop) (r q : Disk × α) : Prop := r.2 = q.2 ∧ Alike S r.1 q.1

theorem Alike.ensureDirectoriesTo (h : Alike S d d') (p : Path) (depth : Nat) :
    EndsAlike S (d.ensureDirectoriesTo p depth) (d'.ensureDirectoriesTo p depth) := by
  have hone : ∀ {d d' : Disk} (q : Path), Alike S d d' →
      EndsAlike S (d.ensureDirectoriesTo q 0) (d'.ensureDirectoriesTo q 0) := by
    intro d d' q hd
    have hmade := hd.ensureDirectory q
    unfold Disk.ensureDirectoriesTo
    generalize d.ensureDirectory q = r at hmade ⊢
    generalize d'.ensureDirectory q = t at hmade ⊢
    cases hmade with
    | error e => exact ⟨rfl, hd⟩
    | ok hd' => exact ⟨rfl, hd'⟩
  induction depth generalizing d d' p with
  | zero => exact hone p h
  | succ depth ih =>
    have hmade := h.makeDirectory p
    unfold Disk.ensureDirectoriesTo
    generalize d.makeDirectory p = r at hmade ⊢
    generalize d'.makeDirectory p = q at hmade ⊢
    cases hmade with
    | ok hd => exact hone p h
    | error e =>
      -- only where something is missing above is the parent made first
      by_cases hmissing : ∃ path, e = .flaw .missing path
      · obtain ⟨path, rfl⟩ := hmissing
        simp only
        obtain ⟨hresult, hdisk⟩ := ih h p.parent
        rcases hrun : d.ensureDirectoriesTo p.parent depth with ⟨d₁, r₁⟩
        rcases hrun' : d'.ensureDirectoriesTo p.parent depth with ⟨d₁', r₁'⟩
        rw [hrun, hrun'] at hresult hdisk
        simp only at hresult hdisk
        subst hresult
        cases r₁ with
        | error e => exact ⟨rfl, hdisk⟩
        | ok u => exact hone p hdisk
      · split
        · rename_i path heq
          cases heq
          exact absurd ⟨path, rfl⟩ hmissing
        · exact hone p h

theorem Alike.ensureDirectories (h : Alike S d d') (p : Path) :
    EndsAlike S (d.ensureDirectories p) (d'.ensureDirectories p) := h.ensureDirectoriesTo p _

/-! ## Removing -/

theorem Alike.isEmptyDir_eq (h : Alike S d d') (loc : Location) :
    FileTree.isEmptyDir loc d'.tree = FileTree.isEmptyDir loc d.tree := by
  have hlen := (h.perm_names loc).length_eq
  unfold FileTree.isEmptyDir
  rw [Bool.eq_iff_iff, List.isEmpty_iff_length_eq_zero, List.isEmpty_iff_length_eq_zero, hlen]

theorem Alike.removeDirectory (h : Alike S d d') (p : Path) :
    EndAlike (Alike S) (d.removeDirectory p) (d'.removeDirectory p) := by
  unfold Disk.removeDirectory
  rcases h.place p with ⟨e, hp, hp'⟩ | ⟨loc, hp, hp'⟩ | ⟨loc, hp, hp'⟩ | ⟨loc, b, s, b', s', hp, hp'⟩
  · rw [hp, hp']
    exact .error e
  · rw [hp, hp']
    exact .error _
  · rw [hp, hp']
    simp only
    rw [h.isEmptyDir_eq loc]
    split
    · exact .ok (h.filter fun l => !decide (l = loc))
    · exact .error _
  · rw [hp, hp']
    exact .error _

theorem Alike.removeTree (h : Alike S d d') (p : Path) : EndsAlike S (d.removeTree p) (d'.removeTree p) := by
  unfold Disk.removeTree
  rcases h.place p with ⟨e, hp, hp'⟩ | ⟨loc, hp, hp'⟩ | ⟨loc, hp, hp'⟩ | ⟨loc, b, s, b', s', hp, hp'⟩
  · rw [hp, hp']
    exact ⟨rfl, h⟩
  · rw [hp, hp']
    exact ⟨rfl, h⟩
  · rw [hp, hp']
    have hempty : Alike S (d.emptyAt loc) (d'.emptyAt loc) := h.filter fun l => !(isBelow loc l && l != loc)
    have hremoved := hempty.removeDirectory p
    simp only
    generalize (d.emptyAt loc).removeDirectory p = r at hremoved ⊢
    generalize (d'.emptyAt loc).removeDirectory p = q at hremoved ⊢
    cases hremoved with
    | error e => exact ⟨rfl, hempty⟩
    | ok hd => exact ⟨rfl, hd⟩
  · rw [hp, hp']
    exact ⟨rfl, h⟩

/-! ## Copying -/

theorem Alike.put_nowhere (h : Alike Nowhere d d') {e e' : Entry} (he : e'.content = e.content) (loc : Location)
    (n n' : Nat) : Alike Nowhere { d with tree := FileTree.put loc e d.tree, clock := n }
      { d' with tree := FileTree.put loc e' d'.tree, clock := n' } :=
  (h.put he loc n n').mono fun _ hl => hl.1

theorem Alike.copyBytes (h : Alike Nowhere d d') (source target : Path) :
    EndAlike (Alike Nowhere) (d.copyBytes source target) (d'.copyBytes source target) := by
  unfold Disk.copyBytes
  rw [h.readBytes_eq id]
  cases d.readBytes source with
  | error e => exact .error e
  | ok bytes => exact (h.writeBytes target bytes).mono fun _ _ hd => hd.mono fun _ hl => hl.1

theorem Alike.copyInto (h : Alike Nowhere d d') (source target : Path) :
    EndAlike (Alike Nowhere) (d.copyInto source target) (d'.copyInto source target) := by
  unfold Disk.copyInto
  rcases h.place source with ⟨e, hp, hp'⟩ | ⟨loc, hp, hp'⟩ | ⟨loc, hp, hp'⟩ | ⟨loc, b, s, b', s', hp, hp'⟩
  · rw [hp, hp']
    exact .error e
  · rw [hp, hp']
    exact .error _
  · rw [hp, hp']
    exact .error _
  · have hsame : (Entry.file b s').content = (Entry.file b s).content := rfl
    rw [hp, hp', h.content_file id (place_file hp) (place_file hp')]
    simp only
    rcases h.place target with ⟨e, hq, hq'⟩ | ⟨l, hq, hq'⟩ | ⟨l, hq, hq'⟩ | ⟨l, c, t, c', t', hq, hq'⟩
    · rw [hq, hq']
      exact .error e
    · rw [hq, hq']
      exact .ok (h.put_nowhere hsame _ _ _)
    · rw [hq, hq']
      exact .error _
    · rw [hq, hq']
      exact .ok (h.put_nowhere hsame _ _ _)

theorem Alike.copyFile (h : Alike Nowhere d d') (source target : Path) :
    EndsAlike Nowhere (d.copyFile source target) (d'.copyFile source target) := by
  unfold Disk.copyFile
  rw [h.isDirectory_eq target]
  extract_lets inside
  clear_value inside
  have hcopied := h.copyInto source inside
  rw [h.sameEntry_eq source inside]
  generalize d.copyInto source inside = r at hcopied ⊢
  generalize d'.copyInto source inside = q at hcopied ⊢
  split
  · exact ⟨rfl, h⟩
  · cases hcopied with
    | error e => exact ⟨rfl, h⟩
    | ok hd => exact ⟨rfl, hd⟩

theorem Alike.copyEntry {source target : Path} {depth : Nat} {state state' : Disk × List CopyNote} (name : Text)
    (h : EndsAlike Nowhere state state')
    (hdirectory : EndsAlike Nowhere (state.1.copyTreeTo (source.child name) (target.child name) depth)
      (state'.1.copyTreeTo (source.child name) (target.child name) depth)) :
    EndsAlike Nowhere (Disk.copyEntry source target depth state name)
      (Disk.copyEntry source target depth state' name) := by
  obtain ⟨hnotes, hdisk⟩ := h
  unfold Disk.copyEntry
  simp only
  rw [hdisk.isDirectory_eq, hnotes]
  split
  · obtain ⟨hresult, hcopied⟩ := hdirectory
    rcases hrun : state.1.copyTreeTo (source.child name) (target.child name) depth with ⟨d₁, r⟩
    rcases hrun' : state'.1.copyTreeTo (source.child name) (target.child name) depth with ⟨d₁', q⟩
    rw [hrun, hrun'] at hresult hcopied
    simp only at hresult hcopied
    subst hresult
    rcases r with (problem | notes) | u
    · exact ⟨rfl, hcopied⟩
    · exact ⟨rfl, hcopied⟩
    · exact ⟨rfl, hcopied⟩
  · obtain ⟨hmore, hcopied⟩ := hdisk.copyFile (source.child name) (target.child name)
    exact ⟨by rw [hmore], hcopied⟩

theorem Alike.copyTreeTo (h : Alike Nowhere d d') (source target : Path) (depth : Nat) :
    EndsAlike Nowhere (d.copyTreeTo source target depth) (d'.copyTreeTo source target depth) := by
  induction depth generalizing d d' source target with
  | zero => exact ⟨rfl, h⟩
  | succ depth ih =>
    rw [copyTreeTo_succ, copyTreeTo_succ, h.list_eq source]
    cases d.list source with
    | error e => exact ⟨rfl, h⟩
    | ok names =>
      simp only
      obtain ⟨hresult, hmade⟩ := h.ensureDirectories target
      rcases hrun : d.ensureDirectories target with ⟨d₁, r⟩
      rcases hrun' : d'.ensureDirectories target with ⟨d₁', q⟩
      rw [hrun, hrun'] at hresult hmade
      simp only at hresult hmade
      subst hresult
      cases r with
      | error e => exact ⟨rfl, hmade⟩
      | ok u =>
        simp only
        -- The loop over the names keeps the two states side by side.
        have hloop : ∀ (names : List Text) (state state' : Disk × List CopyNote), EndsAlike Nowhere state state' →
            EndsAlike Nowhere (names.foldl (Disk.copyEntry source target depth) state)
              (names.foldl (Disk.copyEntry source target depth) state') := by
          intro names
          induction names with
          | nil => exact fun _ _ hstate => hstate
          | cons name names ihNames =>
            intro state state' hstate
            exact ihNames _ _ (Alike.copyEntry name hstate (ih hstate.2 _ _))
        obtain ⟨hnotes, hcopied⟩ := hloop names (d₁, []) (d₁', []) ⟨rfl, hmade⟩
        refine ⟨?_, hcopied⟩
        simp only
        rw [hnotes]

theorem Alike.copyTree (h : Alike Nowhere d d') (source target : Path) :
    EndsAlike Nowhere (d.copyTree source target) (d'.copyTree source target) := by
  unfold Disk.copyTree
  rw [h.length_tree]
  exact h.copyTreeTo source target _

end Disk
end Sitewright
