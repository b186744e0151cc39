import Sitewright.File.Copy
import Sitewright.Proofs.File.Change
import Sitewright.Proofs.Text.Order
/-!
# What a change leaves alone

A change is described by the locations that it may touch. Two classes are told apart: at the first anything
may change, at the second only what a file holds. Whatever passes none of the first and does not end at the
second is found as before.

* `Sound`: each location stands once in a tree, and is spelt in plain names.
* `Changes`: what a disk and a later one have in common.

Main statements: `Changes.look_eq`, and one lemma on its locations for each operation (`changes_writeBytes`,
`changes_ensureDirectories`, `changes_removeTree`).
-/
set_option autoImplicit false

namespace Sitewright

open FileTree (Flaw Place walk entryAt nameLimit isBelow)

/-! ## Sound trees -/

/-- Every part of a location is a plain name. -/
def PlainNames (loc : Location) : Prop := ∀ part ∈ loc, Path.PlainName part

instance (loc : Location) : Decidable (PlainNames loc) :=
  inferInstanceAs (Decidable (∀ part ∈ loc, Path.PlainName part))

theorem PlainNames.straight {loc : Location} (h : PlainNames loc) : (Path.ofLocation loc).Straight :=
  fun hc => (h _ hc).not_dots rfl

theorem PlainNames.noNul {loc : Location} (h : PlainNames loc) : ¬ (Path.ofLocation loc).hasNul = true := by
  intro hc
  obtain ⟨part, hpart, hnul⟩ := Path.hasNul_iff.1 hc
  exact (h part hpart).noNul hnul

theorem PlainNames.child {loc : Location} (h : PlainNames loc) {name : Text} (hname : Path.PlainName name) :
    PlainNames (loc ++ [name]) := by
  intro part hpart
  rcases List.mem_append.1 hpart with hpart | hpart
  · exact h part hpart
  · rw [List.mem_singleton.1 hpart]
    exact hname

theorem PlainNames.of_prefix {loc l : Location} (h : PlainNames loc) (hl : l <+: loc) : PlainNames l :=
  fun part hpart => h part (hl.subset hpart)

/-- Each location stands once, and is spelt in plain names. -/
structure FileTree.Sound (tree : FileTree) : Prop where
  once : (tree.map Prod.fst).Nodup
  plain : ∀ item ∈ tree, PlainNames item.1

instance (tree : FileTree) : Decidable tree.Sound :=
  decidable_of_iff ((tree.map Prod.fst).Nodup ∧ ∀ item ∈ tree, PlainNames item.1)
    ⟨fun h => ⟨h.1, h.2⟩, fun h => ⟨h.once, h.plain⟩⟩

namespace FileTree

theorem mem_put {loc : Location} {e : Entry} {tree : FileTree} {item : Location × Entry}
    (h : item ∈ put loc e tree) : item = (loc, e) ∨ item ∈ tree := by
  induction tree with
  | nil => exact .inl (List.mem_singleton.1 h)
  | cons head rest ih =>
    obtain ⟨l, old⟩ := head
    rw [put] at h
    split at h
    · rename_i hl
      rw [hl] at h
      exact (List.mem_cons.1 h).imp_right (List.mem_cons_of_mem _)
    · rcases List.mem_cons.1 h with h | h
      · exact .inr (h ▸ List.mem_cons_self)
      · exact (ih h).imp_right (List.mem_cons_of_mem _)

theorem map_fst_put (loc : Location) (e : Entry) (tree : FileTree) :
    (put loc e tree).map Prod.fst =
      if loc ∈ tree.map Prod.fst then tree.map Prod.fst else tree.map Prod.fst ++ [loc] := by
  induction tree with
  | nil => simp [put]
  | cons head rest ih =>
    obtain ⟨l, old⟩ := head
    rw [put]
    by_cases hl : l = loc
    · simp [hl]
    · have hne : ¬ loc = l := fun h => hl h.symm
      rw [if_neg hl, List.map_cons, ih, List.map_cons]
      by_cases hm : loc ∈ rest.map Prod.fst
      · rw [if_pos hm, if_pos (List.mem_cons_of_mem _ hm)]
      · have hm' : loc ∉ l :: rest.map Prod.fst := by
          rw [List.mem_cons, not_or]
          exact ⟨hne, hm⟩
        rw [if_neg hm, if_neg hm', List.cons_append]

/-- Each location stands once in a tree. -/
def Once (tree : FileTree) : Prop := (tree.map Prod.fst).Nodup

theorem Once.put {tree : FileTree} (h : Once tree) (loc : Location) (e : Entry) : Once (FileTree.put loc e tree) := by
  unfold Once
  rw [map_fst_put]
  split
  · exact h
  · rename_i hnew
    refine List.nodup_append.2 ⟨h, List.nodup_singleton loc, fun a ha b hb => ?_⟩
    rw [List.mem_singleton] at hb
    subst hb
    exact fun hab => hnew (hab ▸ ha)

theorem Once.filter {tree : FileTree} (h : Once tree) (keep : Location × Entry → Bool) :
    Once (tree.filter keep) := h.sublist (List.filter_sublist.map _)

theorem Sound.put {tree : FileTree} (h : Sound tree) {loc : Location}
    (hplain : PlainNames loc) (e : Entry) : Sound (FileTree.put loc e tree) := by
  refine ⟨Once.put h.once loc e, fun item hitem => ?_⟩
  rcases mem_put hitem with rfl | hitem
  · exact hplain
  · exact h.plain item hitem

theorem Sound.filter {tree : FileTree} (h : Sound tree) (keep : Location × Entry → Bool) :
    Sound (tree.filter keep) :=
  ⟨Once.filter h.once keep, fun item hitem => h.plain item (List.mem_filter.1 hitem).1⟩

theorem Sound.plain_of_entryAt {tree : FileTree} (h : Sound tree) {loc : Location} {e : Entry}
    (he : entryAt loc tree = some e) : PlainNames loc :=
  h.plain _ (entryAt_mem he)

theorem Once.entryAt_eq_some_iff {tree : FileTree} (h : Once tree) {loc : Location} {e : Entry} :
    entryAt loc tree = some e ↔ (loc, e) ∈ tree := by
  refine ⟨entryAt_mem, fun hmem => ?_⟩
  obtain ⟨e', he'⟩ := exists_entryAt hmem
  obtain rfl : e' = e := congrArg Prod.snd (List.inj_on_of_nodup_map h (entryAt_mem he') hmem rfl)
  exact he'

/-! ## Trees without loose ends -/

/-- Everything in a file tree but its root stands in a directory. -/
def Attached (tree : FileTree) : Prop :=
  ∀ item ∈ tree, item.1 ≠ [] → entryAt item.1.dropLast tree = some .directory

instance (tree : FileTree) : Decidable tree.Attached :=
  inferInstanceAs (Decidable (∀ item ∈ tree, item.1 ≠ [] → entryAt item.1.dropLast tree = some .directory))

theorem Attached.directory_above {tree : FileTree} (h : Attached tree) {top rest : Location} {e : Entry}
    (he : entryAt (top ++ rest) tree = some e) (hrest : rest ≠ []) : entryAt top tree = some .directory := by
  induction rest using List.reverseRecOn generalizing e with
  | nil => exact absurd rfl hrest
  | append_singleton rest name ih =>
    have hparent := h _ (entryAt_mem he) (by simp)
    rw [← List.append_assoc, List.dropLast_concat] at hparent
    cases rest with
    | nil => rwa [List.append_nil] at hparent
    | cons first rest => exact ih hparent (List.cons_ne_nil _ _)

theorem mem_names {dir : Location} {tree : FileTree} {name : Text} :
    name ∈ names dir tree ↔ ∃ e, entryAt (dir ++ [name]) tree = some e := by
  rw [names, List.mem_filterMap]
  constructor
  · rintro ⟨⟨loc, e⟩, hitem, hname⟩
    simp only at hname
    split at hname
    · rename_i n hbelow
      cases hname
      rw [below?_eq_some.1 hbelow] at hitem
      exact exists_entryAt hitem
    · cases hname
  · rintro ⟨e, he⟩
    refine ⟨(dir ++ [name], e), entryAt_mem he, ?_⟩
    have hbelow : below? dir (dir ++ [name]) = some [name] := below?_eq_some.2 rfl
    simp only [hbelow]

theorem Once.nodup_names {tree : FileTree} (honce : Once tree) (dir : Location) : (names dir tree).Nodup := by
  induction tree with
  | nil => exact List.nodup_nil
  | cons item rest ih =>
    rw [Once, List.map_cons, List.nodup_cons] at honce
    rw [names, List.filterMap_cons]
    split
    · exact ih honce.2
    · rename_i name hname
      refine List.nodup_cons.2 ⟨fun hmem => honce.1 ?_, ih honce.2⟩
      obtain ⟨e, he⟩ := mem_names.1 hmem
      have hloc : item.1 = dir ++ [name] := by
        split at hname
        · rename_i n hbelow
          cases hname
          exact below?_eq_some.1 hbelow
        · cases hname
      rw [hloc]
      exact List.mem_map_of_mem (entryAt_mem he)

theorem Sound.plain_of_mem_names {tree : FileTree} (h : Sound tree) {dir : Location} {name : Text}
    (hname : name ∈ names dir tree) : Path.PlainName name := by
  obtain ⟨e, he⟩ := mem_names.1 hname
  exact h.plain_of_entryAt he name (List.mem_append_right _ (List.mem_singleton_self _))

end FileTree

theorem Disk.plain_of_list {d : Disk} (hsound : FileTree.Sound d.tree) {p : Path} {names : List Text}
    (h : d.list p = .ok names) : ∀ name ∈ names, Path.PlainName name := by
  unfold list at h
  split at h
  · cases h
    intro name hname
    exact hsound.plain_of_mem_names ((List.mergeSort_perm _ _).mem_iff.1 hname)
  · cases h
  · cases h
  · cases h

/-! ## Changes -/

/-- A file stands at a location. -/
def Disk.HoldsFile (d : Disk) (loc : Location) : Prop := ∃ bytes stamp, entryAt loc d.tree = some (.file bytes stamp)

/-- A disk has become another one: anything may have changed at the locations of a first class, at those of
a second one only what files hold; a file may be new there, but none is gone. -/
structure Disk.Changes (T S : Location → Prop) (d d' : Disk) : Prop where
  here : d'.here = d.here
  entry : ∀ loc, ¬ T loc → ¬ S loc → entryAt loc d'.tree = entryAt loc d.tree
  directory : ∀ loc, ¬ T loc →
    (entryAt loc d'.tree = some .directory ↔ entryAt loc d.tree = some .directory)
  file : ∀ loc, ¬ T loc → HoldsFile d loc → HoldsFile d' loc
  sound : FileTree.Sound d.tree → FileTree.Sound d'.tree

/-- The class without locations. -/
def Nowhere : Location → Prop := fun _ => False

namespace Disk

variable {T S T' S' : Location → Prop} {d d' d'' : Disk} {loc : Location}

theorem Changes.refl (T S : Location → Prop) (d : Disk) : Changes T S d d :=
  ⟨rfl, fun _ _ _ => rfl, fun _ _ => Iff.rfl, fun _ _ h => h, fun h => h⟩

theorem Changes.trans (h : Changes T S d d') (h' : Changes T S d' d'') : Changes T S d d'' :=
  ⟨h'.here.trans h.here, fun loc ht hs => (h'.entry loc ht hs).trans (h.entry loc ht hs),
    fun loc ht => (h'.directory loc ht).trans (h.directory loc ht),
    fun loc ht hf => h'.file loc ht (h.file loc ht hf), fun hd => h'.sound (h.sound hd)⟩

theorem Changes.mono (h : Changes T S d d') (hT : ∀ loc, T loc → T' loc)
    (hS : ∀ loc, S loc → T' loc ∨ S' loc) : Changes T' S' d d' := by
  refine ⟨h.here, fun loc ht hs => ?_, fun loc ht => h.directory loc fun hc => ht (hT loc hc),
    fun loc ht => h.file loc fun hc => ht (hT loc hc), h.sound⟩
  refine h.entry loc (fun hc => ht (hT loc hc)) fun hc => ?_
  exact (hS loc hc).elim ht hs

theorem Changes.of_entry (hhere : d'.here = d.here)
    (hentry : ∀ loc, ¬ T loc → entryAt loc d'.tree = entryAt loc d.tree)
    (hsound : FileTree.Sound d.tree → FileTree.Sound d'.tree) : Changes T S d d' :=
  ⟨hhere, fun loc ht _ => hentry loc ht, fun loc ht => by rw [hentry loc ht],
    fun loc ht => by rw [HoldsFile, HoldsFile, hentry loc ht]; exact id, hsound⟩

theorem Changes.widen (h : Changes T Nowhere d d') (hT : ∀ loc, T loc → T' loc) : Changes T' S d d' :=
  h.mono hT fun _ hc => hc.elim

theorem Changes.start_eq (h : Changes T S d d') (a : Anchor) : d'.start a = d.start a := start_congr h.here a

/-! ## What is found as before -/

/-- A path passes nothing of a first class, and does not end at a second one. -/
structure Avoids (T S : Location → Prop) (d : Disk) (p : Path) : Prop where
  start : ¬ T (d.start p.anchor)
  passed : ∀ loc ∈ Path.passed (d.start p.anchor) p.parts, ¬ T loc
  last : ¬ S (Path.follow (d.start p.anchor) p.parts)

theorem walk_stopped {tree : FileTree} {dir : Location} {part : Text} (next : Text) (rest : List Text)
    (hdots : part ≠ ['.', '.']) (hsize : ¬ Utf8.size part > nameLimit)
    (h : entryAt (dir ++ [part]) tree ≠ some .directory) :
    ∃ f, FileTree.walk tree dir (part :: next :: rest) = .error f ∧ f ≠ .nameTooLong := by
  rw [FileTree.walk_cons, if_neg hdots, if_neg hsize]
  rcases he : entryAt (dir ++ [part]) tree with _ | _ | ⟨bytes, stamp⟩
  · exact ⟨.missing, rfl, by decide⟩
  · exact absurd he h
  · exact ⟨.notDirectory, rfl, by decide⟩

/-- A walk that avoids a change goes as before, or it stops before its end in both trees. -/
theorem Changes.walk (h : Changes T S d d') {dir : Location} {parts : List Text}
    (hpassed : ∀ loc ∈ Path.passed dir parts, ¬ T loc) (hlast : ¬ S (Path.follow dir parts)) :
    FileTree.walk d'.tree dir parts = FileTree.walk d.tree dir parts ∨
      ∃ f f', FileTree.walk d.tree dir parts = .error f ∧ FileTree.walk d'.tree dir parts = .error f' ∧
        f ≠ .nameTooLong ∧ f' ≠ .nameTooLong := by
  induction parts generalizing dir with
  | nil => exact .inl rfl
  | cons part rest ih =>
    rw [Path.passed] at hpassed
    rw [Path.follow] at hlast
    by_cases hdots : part = ['.', '.']
    · rw [if_pos hdots] at hpassed hlast
      rw [FileTree.walk_cons, FileTree.walk_cons, if_pos hdots, if_pos hdots]
      exact ih hpassed hlast
    · rw [if_neg hdots] at hpassed hlast
      by_cases hsize : Utf8.size part > nameLimit
      · rw [FileTree.walk_cons, FileTree.walk_cons, if_neg hdots, if_neg hdots, if_pos hsize, if_pos hsize]
        exact .inl rfl
      · have hT : ¬ T (dir ++ [part]) := hpassed _ List.mem_cons_self
        have hrest := ih (fun loc hloc => hpassed loc (List.mem_cons_of_mem _ hloc)) hlast
        -- a walk that stops before its last part may stop for another reason than before
        by_cases hdir : entryAt (dir ++ [part]) d.tree = some .directory
        · rw [FileTree.walk_cons, FileTree.walk_cons, if_neg hdots, if_neg hdots, if_neg hsize, if_neg hsize,
            hdir, (h.directory _ hT).2 hdir]
          exact hrest
        · have hdir' : entryAt (dir ++ [part]) d'.tree ≠ some .directory :=
            fun hc => hdir ((h.directory _ hT).1 hc)
          cases rest with
          | nil =>
            rw [FileTree.walk_cons, FileTree.walk_cons, h.entry _ hT hlast]
            exact .inl rfl
          | cons next rest =>
            obtain ⟨f, hf, hflaw⟩ := walk_stopped next rest hdots hsize hdir
            obtain ⟨f', hf', hflaw'⟩ := walk_stopped next rest hdots hsize hdir'
            exact .inr ⟨f, f', hf, hf', hflaw, hflaw'⟩

theorem place_of_start {p : Path} (hnul : ¬ p.hasNul = true)
    (h : entryAt (d.start p.anchor) d.tree ≠ some .directory) :
    d.place p = .error (.flaw .missing p.toText) := by
  rw [place_eq_walk hnul]
  rcases he : entryAt (d.start p.anchor) d.tree with _ | _ | ⟨bytes, stamp⟩
  · rfl
  · exact absurd he h
  · rfl

/-- A path that avoids a change is looked at as before. -/
theorem Changes.look_eq (h : Changes T S d d') {p : Path} (hp : Avoids T S d p) : d'.look p = d.look p := by
  by_cases hnul : p.hasNul = true
  · rw [look, look, place_of_hasNul hnul, place_of_hasNul hnul]
  · by_cases hdir : entryAt (d.start p.anchor) d.tree = some .directory
    · rw [look, look, place_eq_walk hnul, place_eq_walk hnul, h.start_eq, hdir,
        (h.directory _ hp.start).2 hdir]
      simp only
      rcases h.walk hp.passed hp.last with hw | ⟨f, f', hw, hw', hf, hf'⟩
      · rw [hw]
      · rw [hw, hw']
        cases f <;> cases f' <;> first | rfl | exact absurd rfl hf | exact absurd rfl hf'
    · have hdir' : entryAt (d'.start p.anchor) d'.tree ≠ some .directory := by
        rw [h.start_eq]
        exact fun hc => hdir ((h.directory _ hp.start).1 hc)
      rw [look, look, place_of_start hnul hdir, place_of_start hnul hdir']

/-- Nothing above or at a location changes. -/
def Spares (T : Location → Prop) (loc : Location) : Prop := ∀ l, l <+: loc → ¬ T l

theorem Spares.mono (h : Spares T' loc) (hT : ∀ l, T l → T' l) : Spares T loc :=
  fun l hl hc => h l hl (hT l hc)

theorem Changes.place_eq (h : Changes T S d d') (hloc : PlainNames loc) (hT : Spares T loc)
    (hS : Spares S loc) : d'.place (.ofLocation loc) = d.place (.ofLocation loc) :=
  place_congr_of_straight hloc.straight h.here fun l hl => h.entry l (hT l hl) (hS l hl)

theorem Changes.readBytes_eq (h : Changes T S d d') (hloc : PlainNames loc) (hT : Spares T loc)
    (hS : Spares S loc) : d'.readBytes (.ofLocation loc) = d.readBytes (.ofLocation loc) := by
  rw [readBytes, readBytes, h.place_eq hloc hT hS]

theorem Changes.isDirectory_at (h : Changes T S d d') (hloc : PlainNames loc) (hT : Spares T loc)
    (hS : Spares S loc) : d'.isDirectory (.ofLocation loc) = d.isDirectory (.ofLocation loc) := by
  rw [isDirectory, isDirectory, look_congr (h.place_eq hloc hT hS)]

theorem Changes.isFile_at (h : Changes T S d d') (hloc : PlainNames loc) (hT : Spares T loc)
    (hS : Spares S loc) : d'.isFile (.ofLocation loc) = d.isFile (.ofLocation loc) := by
  rw [isFile, isFile, look_congr (h.place_eq hloc hT hS)]

theorem spares_nowhere (loc : Location) : Spares Nowhere loc := fun _ _ h => h

theorem location_ofLocation (hloc : PlainNames loc) {q : Place} (h : d.place (.ofLocation loc) = .ok q) :
    q.location = loc := by
  rw [location_of_straight hloc.straight h]
  rfl

theorem mem_list_iff {names : List Text} (hloc : PlainNames loc) (h : d.list (.ofLocation loc) = .ok names)
    {name : Text} : name ∈ names ↔ ∃ e, entryAt (loc ++ [name]) d.tree = some e := by
  unfold list at h
  split at h
  · rename_i l hp
    cases h
    obtain rfl : l = loc := location_ofLocation hloc hp
    rw [Text.sorted, List.mem_mergeSort, FileTree.mem_names]
  all_goals cases h

/-- A directory in which nothing changes is listed as before. -/
theorem Changes.list_eq (h : Changes T S d d') (hsound : FileTree.Sound d.tree) (hloc : PlainNames loc)
    (hT : ∀ name, Spares T (loc ++ [name])) (hS : ∀ name, Spares S (loc ++ [name])) :
    d'.list (.ofLocation loc) = d.list (.ofLocation loc) := by
  have hplace : d'.place (.ofLocation loc) = d.place (.ofLocation loc) :=
    h.place_eq hloc (fun l hl => hT [] l (hl.trans (List.prefix_append _ _)))
      fun l hl => hS [] l (hl.trans (List.prefix_append _ _))
  have hnames : (FileTree.names loc d'.tree).Perm (FileTree.names loc d.tree) := by
    refine (List.perm_ext_iff_of_nodup (FileTree.Once.nodup_names (h.sound hsound).once loc)
      (FileTree.Once.nodup_names hsound.once loc)).2 fun name => ?_
    rw [FileTree.mem_names, FileTree.mem_names,
      h.entry _ (hT name _ (List.prefix_refl _)) (hS name _ (List.prefix_refl _))]
  rw [list, list, hplace]
  rcases hp : d.place (.ofLocation loc) with e | ⟨l, _ | ⟨bytes, stamp⟩⟩ | l
  · rfl
  · have hl : l = loc := location_ofLocation hloc hp
    subst hl
    simp only
    rw [Text.sorted_eq_of_perm hnames]
  · rfl
  · rfl

/-- A file is written to its location only. -/
theorem changes_writeBytes (hloc : PlainNames loc) (hT : T loc) {bytes : Bytes}
    (h : d.writeBytes (.ofLocation loc) bytes = .ok d') : Changes T S d d' := by
  obtain ⟨l, rfl, hplace⟩ := writeBytes_eq_store h
  have hl : l = loc := by
    rcases hplace with hp | ⟨old, stamp, hp⟩ <;> exact location_ofLocation hloc hp
  subst hl
  refine .of_entry rfl (fun other hother => ?_) fun hd => hd.put hloc _
  refine FileTree.entryAt_put_of_ne ?_ _ d.tree
  rintro rfl
  exact hother hT

/-- A walk to a free name or a file leads to the file that is put there. -/
theorem walk_put {tree : FileTree} {dir loc : Location} {parts : List Text} {q : Place} {bytes : Bytes}
    {stamp : Stamp} (hfree : entryAt loc tree ≠ some .directory) (h : FileTree.walk tree dir parts = .ok q)
    (hloc : q.location = loc) (hq : ∀ l, q ≠ .entry l .directory) :
    FileTree.walk (FileTree.put loc (.file bytes stamp) tree) dir parts =
      .ok (.entry loc (.file bytes stamp)) := by
  induction parts generalizing dir with
  | nil =>
    cases h
    exact absurd rfl (hq dir)
  | cons part rest ih =>
    rw [FileTree.walk_cons] at h ⊢
    by_cases hdots : part = ['.', '.']
    · rw [if_pos hdots] at h ⊢
      exact ih h
    · rw [if_neg hdots] at h ⊢
      by_cases hsize : Utf8.size part > nameLimit
      · rw [if_pos hsize] at h
        cases h
      · rw [if_neg hsize] at h ⊢
        -- The walk ends here at the file that is put, or it goes on from a directory, which is another place.
        have hlast : ∀ {place}, (if rest.isEmpty then Except.ok place else .error FileTree.Flaw.missing) = .ok q ∨
            (if rest.isEmpty then Except.ok place else .error FileTree.Flaw.notDirectory) = .ok q →
            place.location = dir ++ [part] → rest.isEmpty = true ∧ dir ++ [part] = loc := by
          rintro place hplace hplaceLoc
          by_cases hrest : rest.isEmpty = true
          · simp only [if_pos hrest, or_self] at hplace
            cases hplace
            exact ⟨hrest, hplaceLoc.symm.trans hloc⟩
          · simp only [if_neg hrest] at hplace
            rcases hplace with hplace | hplace <;> cases hplace
        rcases he : entryAt (dir ++ [part]) tree with _ | _ | ⟨b, s⟩
        · rw [he] at h
          obtain ⟨hrest, rfl⟩ := hlast (.inl h) rfl
          simp only [FileTree.entryAt_put_self, if_pos hrest]
        · rw [he] at h
          have hne : dir ++ [part] ≠ loc := fun hc => hfree (hc ▸ he)
          rw [FileTree.entryAt_put_of_ne hne, he]
          exact ih h
        · rw [he] at h
          obtain ⟨hrest, rfl⟩ := hlast (.inr h) rfl
          simp only [FileTree.entryAt_put_self, if_pos hrest]

theorem place_of_walk_ok (hloc : PlainNames loc) {q : Place} (hroot : entryAt [] d.tree = some .directory)
    (hw : FileTree.walk d.tree [] loc = .ok q) : d.place (.ofLocation loc) = .ok q := by
  rw [place_eq_walk hloc.noNul]
  have hdir : entryAt (d.start (Path.ofLocation loc).anchor) d.tree = some .directory := hroot
  have hwalk : FileTree.walk d.tree (d.start (Path.ofLocation loc).anchor) (Path.ofLocation loc).parts = .ok q := hw
  rw [hdir, hwalk]

theorem walk_of_place_ok {q : Place} (h : d.place (.ofLocation loc) = .ok q) :
    entryAt [] d.tree = some .directory ∧ FileTree.walk d.tree [] loc = .ok q := walk_of_place h

/-- A file that has been written holds what was written. -/
theorem readBytes_writeBytes {p : Path} {bytes : Bytes} (h : d.writeBytes p bytes = .ok d') :
    d'.readBytes p = .ok bytes := by
  obtain ⟨l, rfl, hplace⟩ := writeBytes_eq_store h
  obtain ⟨q, hp, hl, hfree, hq⟩ : ∃ q, d.place p = .ok q ∧ q.location = l ∧ entryAt l d.tree ≠ some .directory ∧
      ∀ k, q ≠ .entry k .directory := by
    rcases hplace with hp | ⟨old, stamp, hp⟩
    · exact ⟨_, hp, rfl, by simp [place_vacant hp], fun _ hc => by cases hc⟩
    · exact ⟨_, hp, rfl, by simp [place_file hp], fun _ hc => by cases hc⟩
  obtain ⟨hstart, hw⟩ := walk_of_place hp
  have hne : d.start p.anchor ≠ l := fun hc => hfree (hc ▸ hstart)
  have hstart' : entryAt ((d.store l bytes).start p.anchor) (d.store l bytes).tree = some .directory :=
    (FileTree.entryAt_put_of_ne hne _ d.tree).trans hstart
  have hw' : FileTree.walk (d.store l bytes).tree ((d.store l bytes).start p.anchor) p.parts = _ :=
    walk_put hfree hw hl hq
  have hplace' : (d.store l bytes).place p = .ok (.entry l (.file bytes (.write d.clock))) := by
    rw [place_eq_walk (not_hasNul_of_place hp nofun), hstart']
    simp only [hw']
  exact readBytes_of_place hplace'

/-! ## Directories -/

theorem entryAt_of_isDirectory (hloc : PlainNames loc) (h : d.isDirectory (.ofLocation loc) = .ok true) :
    entryAt loc d.tree = some .directory := by
  obtain ⟨l, hp⟩ := isDirectory_eq_true.1 h
  have hl : l = loc := location_ofLocation hloc hp
  rw [hl] at hp
  exact entryAt_of_place hloc.straight hp

/-- Making sure of a directory makes one where there is none. -/
theorem changes_ensureDirectory (hloc : PlainNames loc) (h : d.ensureDirectory (.ofLocation loc) = .ok d') :
    Changes (fun l => l = loc ∧ entryAt loc d.tree = none) S d d' := by
  unfold ensureDirectory makeDirectory at h
  rcases hp : d.place (.ofLocation loc) with e | ⟨l, e⟩ | l
  · rw [hp] at h
    cases e with
    | nulByte => cases h
    | flaw flaw path =>
      simp only at h
      split at h <;> cases h
      exact .refl _ _ d
  · rw [hp] at h
    simp only at h
    split at h <;> cases h
    exact .refl _ _ d
  · rw [hp] at h
    cases h
    have hl : l = loc := location_ofLocation hloc hp
    subst hl
    refine .of_entry rfl (fun other hother => ?_) fun hd => hd.put hloc _
    refine FileTree.entryAt_put_of_ne ?_ _ d.tree
    rintro rfl
    exact hother ⟨rfl, place_vacant hp⟩

/-- The locations below one up to another one. -/
def Between (top loc : Location) : Location → Prop := fun l => top <+: l ∧ l ≠ top ∧ l <+: loc

theorem changes_ensureDirectory_between {top : Location} (hloc : PlainNames loc) (htop : top <+: loc)
    (hentry : entryAt top d.tree = some .directory) (h : d.ensureDirectory (.ofLocation loc) = .ok d') :
    Changes (Between top loc) S d d' := by
  refine (changes_ensureDirectory (S := Nowhere) hloc h).widen fun l hl => ?_
  obtain ⟨rfl, hnone⟩ := hl
  refine ⟨htop, ?_, List.prefix_refl l⟩
  rintro rfl
  rw [hentry] at hnone
  cases hnone

theorem changes_ensureDirectoriesTo {top : Location} (hloc : PlainNames loc) (htop : top <+: loc)
    (hstanding : d.isDirectory (.ofLocation top) = .ok true) (depth : Nat) :
    Changes (Between top loc) S d (d.ensureDirectoriesTo (.ofLocation loc) depth).1 := by
  have hentry := entryAt_of_isDirectory (hloc.of_prefix htop) hstanding
  induction depth generalizing loc with
  | zero =>
    unfold ensureDirectoriesTo
    split
    · rename_i d' h
      exact changes_ensureDirectory_between hloc htop hentry h
    · exact .refl _ _ d
  | succ depth ih =>
    unfold ensureDirectoriesTo
    split
    · rename_i path hmissing
      have hne : loc ≠ top := by
        rintro rfl
        obtain ⟨l, hp⟩ := isDirectory_eq_true.1 hstanding
        rw [makeDirectory, hp] at hmissing
        cases hmissing
      have htop' : top <+: loc.dropLast := by
        obtain ⟨rest, rfl⟩ := htop
        have hrest : rest ≠ [] := fun hc => hne (by rw [hc, List.append_nil])
        rw [List.dropLast_append_of_ne_nil hrest]
        exact List.prefix_append _ _
      have hparent := ih (hloc.of_prefix (List.dropLast_prefix loc)) htop'
      have hwide : Changes (Between top loc) S d
          (d.ensureDirectoriesTo (.ofLocation loc.dropLast) depth).1 :=
        hparent.mono (fun l hl => ⟨hl.1, hl.2.1, hl.2.2.trans (List.dropLast_prefix loc)⟩) fun _ => .inr
      have hsame : (Path.ofLocation loc).parent = .ofLocation loc.dropLast := rfl
      rw [hsame]
      rcases hrun : d.ensureDirectoriesTo (.ofLocation loc.dropLast) depth with ⟨d₁, e | u⟩
      · rw [hrun] at hwide
        exact hwide
      · rw [hrun] at hwide
        simp only
        split
        · rename_i d₂ h
          refine hwide.trans (changes_ensureDirectory_between hloc htop ?_ h)
          exact (hwide.directory top fun hc => hc.2.1 rfl).2 hentry
        · exact hwide
    · split
      · rename_i d' h
        exact changes_ensureDirectory_between hloc htop hentry h
      · exact .refl _ _ d

/-- Below a directory that is there, only directories on the way to a location are made. -/
theorem changes_ensureDirectories {top : Location} (hloc : PlainNames loc) (htop : top <+: loc)
    (hstanding : d.isDirectory (.ofLocation top) = .ok true) :
    Changes (Between top loc) S d (d.ensureDirectories (.ofLocation loc)).1 :=
  changes_ensureDirectoriesTo hloc htop hstanding _

theorem changes_pruned (loc : Location) : Changes (fun l => loc <+: l) S d (d.pruned loc) := by
  refine .of_entry rfl (fun l hl => ?_) fun hd => hd.filter _
  rw [entryAt_pruned, if_neg hl]

/-- What is removed stood at or below a location. -/
theorem changes_removeTree (hloc : PlainNames loc) :
    Changes (fun l => loc <+: l) S d (d.removeTree (.ofLocation loc)).1 := by
  rcases hp : d.place (.ofLocation loc) with e | ⟨l, _ | ⟨bytes, stamp⟩⟩ | l
  · rw [removeTree, hp]
    exact .refl _ _ d
  · rw [removeTree_directory hloc.straight hp]
    have hl : l = loc := location_ofLocation hloc hp
    rw [hl]
    exact changes_pruned loc
  · rw [removeTree, hp]
    exact .refl _ _ d
  · rw [removeTree, hp]
    exact .refl _ _ d

end Disk
end Sitewright
