import Sitewright.Proofs.Build.Cleanup
import Sitewright.Proofs.File.Beneath
import Sitewright.Proofs.Text.Occurrence
import Sitewright.Proofs.Watch
import Sitewright.Serve.Session
/-!
# Which files are seen

A snapshot holds the files below the root whose names fit and that no ignored directory hides, each with its time. A
walk that stays out of the ignored directories comes to the same files. So nothing that happens in an ignored directory
or to a file that is not watched is ever told, and what a build writes is of this kind.

* `Watcher.Sees`: what a snapshot is to hold, in terms of the names above a file.
* `Watcher.Comes`: the directories that the walk comes to.
* `Watcher.SameWatched`: two disks differ in nothing that is watched.

Main statements: `Watcher.mem_snapshot_iff`, `Watcher.finds_iff`, `Watching.snapshot_sees`.
-/
set_option autoImplicit false

namespace Sitewright

open FileTree (entryAt)

namespace Watcher

variable {w : Watcher} {d d' disk : Disk} {top : Location} {dirs names : List Text} {name : Text} {p : Path}
  {time : Stamp}

/-! ## Names below the root -/

def below (w : Watcher) (names : List Text) : Path := ⟨w.root.anchor, w.root.parts ++ names⟩

/-- The name ends in one of the extensions, all of them in lower case. -/
def Fits (w : Watcher) (name : Text) : Prop := ∃ e ∈ w.extensions, Text.lower e <:+ Text.lower name

/-- A directory below the root is ignored, for its own name or for its path. -/
def Ignores (w : Watcher) (dirs : List Text) : Prop :=
  (∃ name ∈ alwaysIgnored ++ w.ignoredNames, dirs.getLast? = some name) ∨ w.below dirs ∈ w.ignoredPaths

/-- No directory on the way down from the root is ignored. The root itself always counts. -/
def Passes (w : Watcher) (dirs : List Text) : Prop := ∀ front, front <+: dirs → front ≠ [] → ¬ w.Ignores front

/-- A file stands below the root, under a name that fits, and no directory above it is ignored. -/
def Sees (w : Watcher) (disk : Disk) (p : Path) (time : Stamp) : Prop :=
  ∃ top dirs name bytes, disk.place w.root = .ok (.entry top .directory) ∧ p = w.below (dirs ++ [name]) ∧
    entryAt (top ++ (dirs ++ [name])) disk.tree = some (.file bytes time) ∧ w.Fits name ∧ w.Passes dirs

theorem hasExtension_iff : hasExtension w.extensions name = true ↔ w.Fits name := by
  rw [hasExtension, List.any_eq_true]
  exact exists_congr fun e => and_congr_right fun _ => Text.endsWith_iff

theorem enters_iff : w.enters (w.below (dirs ++ [name])) = true ↔ ¬ w.Ignores (dirs ++ [name]) := by
  have hlast : (w.below (dirs ++ [name])).name = name := by simp [below, Path.name]
  rw [enters, hlast, Bool.and_eq_true, Bool.not_eq_true', Bool.not_eq_true', Ignores, not_or, List.getLast?_concat]
  simp only [Option.some.injEq, Bool.eq_false_iff, ne_eq, List.elem_iff, exists_eq_right']

theorem passes_nil : w.Passes [] := fun _ hfront hne => absurd (List.prefix_nil.1 hfront) hne

theorem Passes.of_prefix {front : List Text} (h : w.Passes dirs) (hfront : front <+: dirs) : w.Passes front :=
  fun inner hinner => h inner (hinner.trans hfront)

theorem passes_concat : w.Passes (dirs ++ [name]) ↔ w.Passes dirs ∧ ¬ w.Ignores (dirs ++ [name]) := by
  constructor
  · intro h
    exact ⟨h.of_prefix (List.prefix_append _ _), h _ (List.prefix_refl _) (by simp)⟩
  · rintro ⟨h, hlast⟩ front hfront hne
    rcases List.prefix_concat_iff.1 hfront with rfl | hfront
    · exact hlast
    · exact h front hfront hne

/-- What is watched behind some directories that count: a name that fits, at the end of directories that count too. -/
theorem watches_iff (h : w.Passes dirs) : w.watches (w.below dirs) names = true ↔
    ∃ more name, names = more ++ [name] ∧ w.Fits name ∧ w.Passes (dirs ++ more) := by
  -- on the names: all but the last one are directories to enter
  induction names generalizing dirs with
  | nil => exact iff_of_false Bool.false_ne_true fun ⟨more, name, hnames, _⟩ => by simp at hnames
  | cons first rest ih =>
    have hchild : (⟨(w.below dirs).anchor, (w.below dirs).parts ++ [first]⟩ : Path) = w.below (dirs ++ [first]) :=
      congrArg (Path.mk _) (List.append_assoc _ _ _)
    cases rest with
    | nil =>
      rw [watches, hasExtension_iff]
      constructor
      · intro hfits
        exact ⟨[], first, rfl, hfits, by rwa [List.append_nil]⟩
      · rintro ⟨more, name, hnames, hfits, -⟩
        obtain ⟨rfl, hname⟩ := List.append_eq_singleton_iff.1 hnames.symm |>.resolve_right (by simp)
        rwa [← (List.cons.inj hname).1]
    | cons second rest =>
      have hstep : w.watches (w.below dirs) (first :: second :: rest) =
          (w.enters (w.below (dirs ++ [first])) && w.watches (w.below (dirs ++ [first])) (second :: rest)) := by
        rw [watches, hchild]
        exact List.cons_ne_nil _ _
      rw [hstep, Bool.and_eq_true, enters_iff]
      constructor
      · rintro ⟨hfirst, hrest⟩
        obtain ⟨more, name, hnames, hfits, hpasses⟩ := (ih (passes_concat.2 ⟨h, hfirst⟩)).1 hrest
        exact ⟨first :: more, name, by rw [hnames]; rfl, hfits, by simpa using hpasses⟩
      · rintro ⟨more, name, hnames, hfits, hpasses⟩
        cases more with
        | nil => simp at hnames
        | cons first' more =>
          obtain ⟨rfl, hrest⟩ := List.cons.inj hnames
          have hassoc : dirs ++ first :: more = dirs ++ [first] ++ more := by simp
          rw [hassoc] at hpasses
          have hfirst := hpasses.of_prefix (List.prefix_append _ _)
          exact ⟨(passes_concat.1 hfirst).2, (ih hfirst).2 ⟨more, name, hrest, hfits, hpasses⟩⟩

/-! ## Snapshots -/

/-- A snapshot holds exactly the files that are to be seen, with their times. -/
theorem mem_snapshot_iff (h : FileTree.Once disk.tree) : (p, time) ∈ w.snapshot disk ↔ w.Sees disk p time := by
  have hroot : w.below [] = w.root := congrArg (Path.mk _) (List.append_nil _)
  unfold snapshot Sees
  split
  · rename_i top hplace
    simp only [hplace, List.mem_filterMap]
    constructor
    · rintro ⟨⟨loc, e⟩, hitem, hseen⟩
      simp only at hseen
      split at hseen
      · rename_i names bytes stamp hbelow
        split at hseen
        · rename_i hwatches
          cases hseen
          rw [← hroot, watches_iff passes_nil] at hwatches
          obtain ⟨dirs, name, rfl, hfits, hpasses⟩ := hwatches
          rw [FileTree.below?_eq_some.1 hbelow] at hitem
          exact ⟨top, dirs, name, bytes, rfl, rfl, h.entryAt_eq_some_iff.2 hitem, hfits, hpasses⟩
        · cases hseen
      · cases hseen
    · rintro ⟨top', dirs, name, bytes, htop, rfl, hentry, hfits, hpasses⟩
      cases htop
      refine ⟨(top ++ (dirs ++ [name]), .file bytes time), h.entryAt_eq_some_iff.1 hentry, ?_⟩
      have hbelow : FileTree.below? top (top ++ (dirs ++ [name])) = some (dirs ++ [name]) :=
        FileTree.below?_eq_some.2 rfl
      have hwatches : w.watches w.root (dirs ++ [name]) = true := by
        rw [← hroot]
        exact (watches_iff passes_nil).2 ⟨dirs, name, rfl, hfits, hpasses⟩
      simp only [hbelow, hwatches, if_true]
      rfl
  · rename_i hplace
    refine iff_of_false List.not_mem_nil ?_
    rintro ⟨top, dirs, name, bytes, htop, -⟩
    exact hplace top htop

/-! ## The walk -/

/-- The directories that a walk comes to, from the root down through directories that are entered. -/
inductive Comes (w : Watcher) (tree : FileTree) (top : Location) : List Text → Prop
  | root : Comes w tree top []
  | enter {dirs : List Text} {name : Text} (h : Comes w tree top dirs) (hdir : entryAt (top ++ (dirs ++ [name])) tree = some .directory)
      (henters : w.enters (w.below (dirs ++ [name])) = true) : Comes w tree top (dirs ++ [name])

/-- A file that the walk finds in a directory that it comes to. -/
def Finds (w : Watcher) (disk : Disk) (p : Path) (time : Stamp) : Prop :=
  ∃ top dirs name bytes, disk.place w.root = .ok (.entry top .directory) ∧ w.Comes disk.tree top dirs ∧
    p = w.below (dirs ++ [name]) ∧ entryAt (top ++ (dirs ++ [name])) disk.tree = some (.file bytes time) ∧
    hasExtension w.extensions name = true

theorem Comes.passes {tree : FileTree} (h : w.Comes tree top dirs) : w.Passes dirs := by
  induction h with
  | root => exact passes_nil
  | enter _ _ henters ih => exact passes_concat.2 ⟨ih, enters_iff.1 henters⟩

theorem comes_of_passes {tree : FileTree}
    (hdirs : ∀ front, front <+: dirs → front ≠ [] → entryAt (top ++ front) tree = some .directory)
    (h : w.Passes dirs) : w.Comes tree top dirs := by
  induction dirs using List.reverseRecOn with
  | nil => exact .root
  | append_singleton dirs name ih =>
    obtain ⟨hpasses, hlast⟩ := passes_concat.1 h
    have hfront := ih (fun front hfront => hdirs front (hfront.trans (List.prefix_append _ _))) hpasses
    exact .enter hfront (hdirs _ (List.prefix_refl _) (by simp)) (enters_iff.2 hlast)

/-- Where everything stands in a directory, the walk finds exactly the files that are to be seen. -/
theorem finds_iff (h : disk.tree.Attached) : w.Finds disk p time ↔ w.Sees disk p time := by
  constructor
  · rintro ⟨top, dirs, name, bytes, htop, hcomes, hp, hentry, hfits⟩
    exact ⟨top, dirs, name, bytes, htop, hp, hentry, hasExtension_iff.1 hfits, hcomes.passes⟩
  · rintro ⟨top, dirs, name, bytes, htop, hp, hentry, hfits, hpasses⟩
    refine ⟨top, dirs, name, bytes, htop, comes_of_passes ?_ hpasses, hp, hentry, hasExtension_iff.2 hfits⟩
    rintro front ⟨rest, rfl⟩ -
    have hsplit : top ++ (front ++ rest ++ [name]) = top ++ front ++ (rest ++ [name]) := by simp
    rw [hsplit] at hentry
    exact h.directory_above hentry (by simp)

/-! ## Disks that differ in nothing that is watched -/

/-- The root leads to the same place on two disks, and below it something else stands on the one than on the other only
in ignored directories, or where neither has a file with a name that fits. -/
structure SameWatched (w : Watcher) (d d' : Disk) : Prop where
  root : d'.place w.root = d.place w.root
  below : ∀ top, d.place w.root = .ok (.entry top .directory) → ∀ dirs name, w.Passes dirs →
    entryAt (top ++ (dirs ++ [name])) d'.tree = entryAt (top ++ (dirs ++ [name])) d.tree ∨
      (w.Fits name → ¬ d.HoldsFile (top ++ (dirs ++ [name])) ∧ ¬ d'.HoldsFile (top ++ (dirs ++ [name])))

theorem SameWatched.symm (h : w.SameWatched d d') : w.SameWatched d' d := by
  refine ⟨h.root.symm, fun top htop dirs name hpasses => ?_⟩
  rw [h.root] at htop
  exact (h.below top htop dirs name hpasses).imp Eq.symm fun hnone hfits => (hnone hfits).symm

theorem SameWatched.sees (h : w.SameWatched d d') (hsees : w.Sees d p time) : w.Sees d' p time := by
  obtain ⟨top, dirs, name, bytes, htop, hp, hentry, hfits, hpasses⟩ := hsees
  refine ⟨top, dirs, name, bytes, h.root.trans htop, hp, ?_, hfits, hpasses⟩
  rcases h.below top htop dirs name hpasses with hsame | hnone
  · exact hsame.trans hentry
  · exact absurd ⟨bytes, time, hentry⟩ (hnone hfits).1

theorem SameWatched.perm_snapshot (h : w.SameWatched d d') (honce : FileTree.Once d.tree)
    (honce' : FileTree.Once d'.tree) : (w.snapshot d).Perm (w.snapshot d') := by
  refine (List.perm_ext_iff_of_nodup (once_snapshot w honce).of_map (once_snapshot w honce').of_map).2 ?_
  rintro ⟨p, time⟩
  rw [mem_snapshot_iff honce, mem_snapshot_iff honce']
  exact ⟨h.sees, h.symm.sees⟩

/-- Nothing has happened between two snapshots that hold the same. -/
theorem differences_of_perm {old new : Snapshot} (h : old.Perm new) (hold : Once old) : differences old new = [] := by
  have hnew : Once new := (h.map Prod.fst).nodup_iff.1 hold
  have hreports := differences_report hold hnew
  have hpaths : ∀ p, p ∈ paths old ↔ p ∈ paths new := fun p => by
    rw [mem_paths, mem_paths]
    exact exists_congr fun time => h.mem_iff
  refine List.eq_nil_iff_forall_not_mem.2 ?_
  rintro ⟨kind, p⟩ hmem
  cases kind with
  | added => exact ((hreports.added p).1 hmem).2 ((hpaths p).2 ((hreports.added p).1 hmem).1)
  | removed => exact ((hreports.removed p).1 hmem).2 ((hpaths p).1 ((hreports.removed p).1 hmem).1)
  | changed =>
    obtain ⟨before, after, hbefore, hafter, hne⟩ := (hreports.changed p).1 hmem
    exact hne (congrArg Prod.snd (List.inj_on_of_nodup_map hold hbefore (h.mem_iff.2 hafter) rfl))

theorem mem_paths_of_differences {old new : Snapshot} {c : FileChange} (h : c ∈ differences old new) :
    c.path ∈ paths old ∨ c.path ∈ paths new := by
  rw [differences_eq, List.mem_append, List.mem_append, List.mem_map, List.mem_map, List.mem_map] at h
  rcases h with (⟨p, hp, rfl⟩ | ⟨p, hp, rfl⟩) | ⟨p, hp, rfl⟩
  · exact .inr (mem_added.1 hp).1
  · obtain ⟨item, hitem, rfl⟩ := List.mem_map.1 hp
    exact .inr (mem_paths.2 ⟨item.2, (List.mem_filter.1 hitem).1⟩)
  · exact .inl (mem_added.1 hp).1

end Watcher

namespace Watching

open Watcher (Once Fits Passes Sees Finds SameWatched paths differences)

variable {v : Watcher} {w : Watching} {disk : Disk} {disks : List Disk} {site : Site}

/-! ## Runs of polls -/

theorem exists_of_mem_polls (h : w.watcher = v.start disk) {c : FileChange} (hc : c ∈ (w.polls disks).1.flatten) :
    ∃ d ∈ disk :: disks, c.path ∈ paths (v.snapshot d) := by
  induction disks generalizing w disk with
  | nil => cases hc
  | cons next disks ih =>
    rw [polls_cons, poll_known h, List.flatten_cons, List.mem_append] at hc
    rcases hc with hc | hc
    · rcases Watcher.mem_paths_of_differences hc with hold | hnew
      · exact ⟨disk, List.mem_cons_self, hold⟩
      · exact ⟨next, List.mem_cons_of_mem _ List.mem_cons_self, hnew⟩
    · obtain ⟨d, hd, hpath⟩ := ih rfl hc
      exact ⟨d, List.mem_cons_of_mem _ hd, hpath⟩

theorem polls_quiet (h : w.watcher = v.start disk) (hold : Once (v.snapshot disk))
    (hsame : ∀ d ∈ disks, (v.snapshot disk).Perm (v.snapshot d)) :
    (w.polls disks).1 = disks.map (fun _ => []) ∧ (w.polls disks).2.queue = w.queue := by
  induction disks generalizing w disk with
  | nil => exact ⟨rfl, rfl⟩
  | cons next disks ih =>
    obtain ⟨hnext, hlater⟩ := List.forall_mem_cons.1 hsame
    have hnew : Once (v.snapshot next) := (hnext.map Prod.fst).nodup_iff.1 hold
    have hpoll : w.poll next = ([], ⟨v.start next, w.queue⟩) := by
      rw [poll_known h, Watcher.differences_of_perm hnext hold, List.append_nil]
    obtain ⟨hreports, hqueue⟩ := ih (w := ⟨v.start next, w.queue⟩) rfl hnew fun d hd => hnext.symm.trans (hlater d hd)
    rw [polls_cons, hpoll, List.map_cons]
    exact ⟨congrArg ([] :: ·) hreports, hqueue⟩

end Watching

/-! ## What a build writes -/

/-- Two disks differ only in the output and the temporary directory of a site, and in the place of these stands no
file. -/
structure Site.SameBeside (site : Site) (d d' : Disk) : Prop where
  entry : ∀ l, ¬ Beneath site.root.parts [site.outDir, site.tmpDir] l → entryAt l d'.tree = entryAt l d.tree
  noFile : ∀ name ∈ [site.outDir, site.tmpDir],
    ¬ d.HoldsFile (site.root.parts ++ [name]) ∧ ¬ d'.HoldsFile (site.root.parts ++ [name])

namespace Serve

variable {site : Site} {d d' : Disk} {dirs : List Text} {name : Text}

theorem not_passes_built (hnamed : Build.Named site) (hname : name ∈ [site.outDir, site.tmpDir]) (rest : List Text) :
    ¬ (watcher site).Passes (name :: rest) := by
  intro h
  refine h [name] ⟨rest, rfl⟩ (List.cons_ne_nil _ _) (.inr ?_)
  show site.root.child name ∈ [site.outRoot, site.tmpRoot]
  rw [hnamed.outRoot_eq, hnamed.tmpRoot_eq]
  exact List.mem_map_of_mem (f := site.root.child) hname

theorem sameWatched_of_sameBeside (hnamed : Build.Named site) (h : site.SameBeside d d') :
    (watcher site).SameWatched d d' := by
  -- an absolute path does not ask for the working directory
  have hhere : ({ d' with here := d.here } : Disk).place site.root = d'.place site.root := by
    unfold Disk.place
    rw [hnamed.absolute]
    rfl
  have hstart : ∀ e : Disk, e.start site.root.anchor = [] := fun e => by rw [hnamed.absolute]; rfl
  refine ⟨hhere.symm.trans ?_, fun top htop dirs name hpasses => ?_⟩
  · refine Disk.place_congr_of_straight hnamed.straight rfl fun l hl => h.entry l ?_
    rw [hstart, List.nil_append] at hl
    exact spares_beneath _ _ l hl
  · have htop' : top = site.root.parts := by
      have hloc := Disk.location_of_straight hnamed.straight htop
      rwa [hstart, List.nil_append] at hloc
    rw [htop']
    by_cases hbeneath : Beneath site.root.parts [site.outDir, site.tmpDir] (site.root.parts ++ (dirs ++ [name]))
    · obtain ⟨first, hfirst, hfront⟩ := hbeneath
      obtain ⟨rest, hrest⟩ := (List.prefix_append_right_inj _).1 hfront
      cases dirs with
      | nil =>
        obtain ⟨rfl, -⟩ := List.cons.inj hrest
        exact .inr fun _ => h.noFile first hfirst
      | cons dir dirs =>
        obtain ⟨rfl, -⟩ := List.cons.inj hrest
        exact absurd hpasses (not_passes_built hnamed hfirst dirs)
    · exact .inl (h.entry _ hbeneath)

/-- Of a file in the output or the temporary directory nothing is ever told. -/
theorem not_told_of_built (hnamed : Build.Named site) {queue : List FileChange} {disk : Disk} {disks : List Disk}
    (honce : ∀ d ∈ disk :: disks, FileTree.Once d.tree) (hname : name ∈ [site.outDir, site.tmpDir]) {rest : List Text}
    (hrest : rest ≠ []) {c : FileChange}
    (hc : c ∈ (Watching.polls (Watching.start ⟨watcher site, queue⟩ disk) disks).1.flatten) :
    c.path ≠ (watcher site).below (name :: rest) := by
  intro hpath
  obtain ⟨d, hd, hmem⟩ := Watching.exists_of_mem_polls (v := watcher site) rfl hc
  obtain ⟨time, hmem⟩ := Watcher.mem_paths.1 hmem
  obtain ⟨top, dirs, last, bytes, -, hbelow, -, -, hpasses⟩ := (Watcher.mem_snapshot_iff (honce d hd)).1 hmem
  rw [hpath] at hbelow
  have hnames : name :: rest = dirs ++ [last] := List.append_cancel_left (congrArg Path.parts hbelow)
  cases dirs with
  | nil => exact hrest (List.cons.inj hnames).2
  | cons dir dirs =>
    obtain ⟨rfl, -⟩ := List.cons.inj hnames
    exact not_passes_built hnamed hname dirs hpasses

end Serve

namespace Watching

open Watcher (Once)

/-- A snapshot maps exactly the watched files to the times of their last changes: those that stand below the root under
a name that fits, with no ignored directory above them. These are the files that a walk finds that does not enter
ignored directories. Disks that differ in nothing that is watched have snapshots that hold the same. So a run of polls
tells nothing of a file in the output or the temporary directory of a site, and nothing at all where the disks differ
only there. -/
theorem snapshot_sees :
    (∀ (w : Watcher) (disk : Disk), FileTree.Once disk.tree →
      Once (w.snapshot disk) ∧ ∀ p time, (p, time) ∈ w.snapshot disk ↔ w.Sees disk p time) ∧
    (∀ (w : Watcher) (disk : Disk), disk.tree.Attached → ∀ p time, w.Finds disk p time ↔ w.Sees disk p time) ∧
    (∀ (w : Watcher) (d d' : Disk), FileTree.Once d.tree → FileTree.Once d'.tree → w.SameWatched d d' →
      (w.snapshot d).Perm (w.snapshot d') ∧ Watcher.differences (w.snapshot d) (w.snapshot d') = []) ∧
    ∀ (site : Site) (queue : List FileChange) (disk : Disk) (disks : List Disk), Build.Named site →
      (∀ d ∈ disk :: disks, FileTree.Once d.tree) →
      let run := Watching.polls (Watching.start ⟨Serve.watcher site, queue⟩ disk) disks
      (∀ c ∈ run.1.flatten, ∀ dir ∈ [site.outRoot, site.tmpRoot], ∀ rest ≠ [],
        c.path ≠ ⟨dir.anchor, dir.parts ++ rest⟩) ∧
      ((∀ d ∈ disks, site.SameBeside disk d) → run.1 = disks.map (fun _ => []) ∧ run.2.queue = queue) := by
  refine ⟨fun w disk honce => ⟨Watcher.once_snapshot w honce, fun p time => Watcher.mem_snapshot_iff honce⟩,
    fun w disk hattached p time => Watcher.finds_iff hattached, fun w d d' honce honce' hsame => ?_,
    fun site queue disk disks hnamed honce => ⟨fun c hc dir hdir rest hrest => ?_, fun hbeside => ?_⟩⟩
  · have hperm := hsame.perm_snapshot honce honce'
    exact ⟨hperm, Watcher.differences_of_perm hperm (Watcher.once_snapshot w honce)⟩
  · rw [hnamed.outRoot_eq, hnamed.tmpRoot_eq] at hdir
    obtain ⟨name, hname, rfl⟩ : ∃ name ∈ [site.outDir, site.tmpDir], site.root.child name = dir := List.mem_map.1 hdir
    have hbelow : (⟨(site.root.child name).anchor, (site.root.child name).parts ++ rest⟩ : Path) =
        (Serve.watcher site).below (name :: rest) := congrArg (Path.mk _) (List.append_assoc _ _ _)
    rw [hbelow]
    exact Serve.not_told_of_built hnamed honce hname hrest hc
  · have hdisk := honce disk List.mem_cons_self
    refine polls_quiet (v := Serve.watcher site) rfl (Watcher.once_snapshot _ hdisk) fun d hd => ?_
    have hsame := Serve.sameWatched_of_sameBeside hnamed (hbeside d hd)
    exact hsame.perm_snapshot hdisk (honce d (List.mem_cons_of_mem _ hd))

def projectSite : Site := .usual (.ofLocation ["project".toList])

def projectItem (names : List String) : Location := "project".toList :: names.map String.toList

/-- A project with a page in a source directory that is called like the output directory, and with a package. -/
def projectDisk : Disk :=
  ⟨[([], .directory), (projectItem [], .directory), (projectItem ["src"], .directory),
    (projectItem ["src", "dist"], .directory), (projectItem ["src", "dist", "Page.HTML"], .file [] (.seconds 1)),
    (projectItem ["node_modules"], .directory), (projectItem ["node_modules", "a.ts"], .file [] (.seconds 2)),
    (projectItem ["dist"], .directory), (projectItem ["pages"], .directory)], [], 0⟩

theorem named_projectSite : Build.Named projectSite where
  absolute := rfl
  straight := by decide
  tmpName := by constructor <;> decide
  outName := by constructor <;> decide

theorem sameBeside_store {dir name : Text} (hdir : dir ∈ [projectSite.outDir, projectSite.tmpDir]) (bytes : Bytes) :
    projectSite.SameBeside projectDisk (projectDisk.store ["project".toList, dir, name] bytes) := by
  have hstore : ∀ l, l ≠ ["project".toList, dir, name] →
      entryAt l (projectDisk.store ["project".toList, dir, name] bytes).tree = entryAt l projectDisk.tree :=
    fun l hl => FileTree.entryAt_put_of_ne hl _ _
  refine ⟨fun l hl => hstore l ?_, fun other hother => ?_⟩
  · rintro rfl
    exact hl ⟨dir, hdir, [name], rfl⟩
  · have hdirectory : entryAt (projectSite.root.parts ++ [other]) projectDisk.tree = some .directory := by
      rcases List.mem_pair.1 hother with rfl | rfl <;> decide
    have hsame := (hstore (projectSite.root.parts ++ [other]) (by simp [projectSite, Site.usual, Path.ofLocation])).trans
      hdirectory
    constructor <;> rintro ⟨bytes, stamp, hfile⟩
    · rw [hdirectory] at hfile
      cases hfile
    · rw [hsame] at hfile
      cases hfile

/-- While a build has its pages in the temporary directory, and after it. -/
def projectDisks : List Disk :=
  [projectDisk.store (projectItem ["pages", "home.html"]) [], projectDisk.store (projectItem ["dist", "home.html"]) []]

/-- The page in the source directory is seen and the package is not, and of the build nothing is told. -/
theorem snapshot_sees_project :
    projectDisk.tree.Attached ∧ (∀ d ∈ projectDisk :: projectDisks, FileTree.Once d.tree) ∧
    (Serve.watcher projectSite).snapshot projectDisk =
      [(.ofLocation (projectItem ["src", "dist", "Page.HTML"]), .seconds 1)] ∧
    (∀ p time, (Serve.watcher projectSite).Finds projectDisk p time ↔
      (p, time) = (.ofLocation (projectItem ["src", "dist", "Page.HTML"]), .seconds 1)) ∧
    (∀ d ∈ projectDisks, projectSite.SameBeside projectDisk d) ∧
    (Watching.polls (Watching.start ⟨Serve.watcher projectSite, []⟩ projectDisk) projectDisks).2.queue = [] := by
  obtain ⟨hsnapshot, hfinds, -, hruns⟩ := snapshot_sees
  have hattached : projectDisk.tree.Attached := by decide
  have honce : ∀ d ∈ projectDisk :: projectDisks, FileTree.Once d.tree := by
    simp only [projectDisks, List.forall_mem_cons, FileTree.Once]
    exact ⟨by decide, by decide, by decide, List.forall_mem_nil _⟩
  have hbeside : ∀ d ∈ projectDisks, projectSite.SameBeside projectDisk d := by
    refine List.forall_mem_cons.2 ⟨sameBeside_store (by decide) [], List.forall_mem_cons.2 ⟨?_, List.forall_mem_nil _⟩⟩
    exact sameBeside_store (by decide) []
  have hseen : (Serve.watcher projectSite).snapshot projectDisk =
      [(.ofLocation (projectItem ["src", "dist", "Page.HTML"]), .seconds 1)] := rfl
  obtain ⟨-, hmem⟩ := hsnapshot (Serve.watcher projectSite) projectDisk (honce _ List.mem_cons_self)
  obtain ⟨-, hquiet⟩ := hruns projectSite [] projectDisk projectDisks named_projectSite honce
  refine ⟨hattached, honce, hseen, fun p time => ?_, hbeside, (hquiet hbeside).2⟩
  rw [hfinds _ projectDisk hattached, ← hmem, hseen, List.mem_singleton]

end Watching
end Sitewright
