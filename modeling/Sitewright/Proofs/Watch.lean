import Sitewright.Proofs.File.Frame
import Sitewright.Watch
/-!
# What polls tell

A poll tells what has happened since the last one: a file that is there now and was not there is added, one that was
there and is not there now is removed, and one that is there both times, with another time of its last change, is
changed. What the polls of a run tell stands in the queue in one row. Followed from the files that were there at the
start, it leads to those that the last poll saw.

* `FileChange.follow?`: what a change does to a set of files, if it can happen to it.
* `Watcher.Reports`: what a poll has to tell of two snapshots.

Main statement: `Watching.polls_report`.
-/
set_option autoImplicit false

namespace Sitewright

/-! ## Following changes -/

namespace FileChange

variable {paths : Finset Path} {ps : List Path} {c : FileChange} {changes : List FileChange}

/-- The files after a change: only a file that is not there is added, and only one that is there changed or removed. -/
def follow? (paths : Finset Path) (c : FileChange) : Option (Finset Path) :=
  match c.kind with
  | .added => if c.path ∈ paths then none else some (insert c.path paths)
  | .changed => if c.path ∈ paths then some paths else none
  | .removed => if c.path ∈ paths then some (paths.erase c.path) else none

/-- The files after changes that happen one after the other. -/
def followAll? (paths : Finset Path) (changes : List FileChange) : Option (Finset Path) := changes.foldlM follow? paths

theorem followAll?_cons : followAll? paths (c :: changes) = (follow? paths c).bind (followAll? · changes) := rfl

theorem followAll?_append (first second : List FileChange) :
    followAll? paths (first ++ second) = (followAll? paths first).bind (followAll? · second) := List.foldlM_append

theorem followAll?_added (hnodup : ps.Nodup) (hnew : ∀ p ∈ ps, p ∉ paths) :
    followAll? paths (ps.map (⟨.added, ·⟩)) = some (paths ∪ ps.toFinset) := by
  induction ps generalizing paths with
  | nil => rw [List.toFinset_nil, Finset.union_empty]; rfl
  | cons p ps ih =>
    obtain ⟨hp, hps⟩ := List.nodup_cons.1 hnodup
    obtain ⟨hpaths, hrest⟩ := List.forall_mem_cons.1 hnew
    have hstep : follow? paths ⟨.added, p⟩ = some (insert p paths) := if_neg hpaths
    have hlater : ∀ q ∈ ps, q ∉ insert p paths := fun q hq hmem =>
      (Finset.mem_insert.1 hmem).elim (fun hqp => hp (hqp ▸ hq)) (hrest q hq)
    rw [List.map_cons, followAll?_cons, hstep, Option.bind_some, ih hps hlater, List.toFinset_cons, Finset.insert_union,
      Finset.union_insert]

theorem followAll?_changed (hold : ∀ p ∈ ps, p ∈ paths) :
    followAll? paths (ps.map (⟨.changed, ·⟩)) = some paths := by
  induction ps with
  | nil => rfl
  | cons p ps ih =>
    obtain ⟨hp, hps⟩ := List.forall_mem_cons.1 hold
    have hstep : follow? paths ⟨.changed, p⟩ = some paths := if_pos hp
    rw [List.map_cons, followAll?_cons, hstep, Option.bind_some, ih hps]

theorem followAll?_removed (hnodup : ps.Nodup) (hold : ∀ p ∈ ps, p ∈ paths) :
    followAll? paths (ps.map (⟨.removed, ·⟩)) = some (paths \ ps.toFinset) := by
  induction ps generalizing paths with
  | nil => rw [List.toFinset_nil, Finset.sdiff_empty]; rfl
  | cons p ps ih =>
    obtain ⟨hp, hps⟩ := List.nodup_cons.1 hnodup
    obtain ⟨hpaths, hrest⟩ := List.forall_mem_cons.1 hold
    have hstep : follow? paths ⟨.removed, p⟩ = some (paths.erase p) := if_pos hpaths
    have hlater : ∀ q ∈ ps, q ∈ paths.erase p := fun q hq =>
      Finset.mem_erase.2 ⟨fun hqp => hp (hqp ▸ hq), hrest q hq⟩
    rw [List.map_cons, followAll?_cons, hstep, Option.bind_some, ih hps hlater, List.toFinset_cons,
      Finset.sdiff_insert, Finset.erase_sdiff_comm]

end FileChange

namespace Watcher

variable {w : Watcher} {disk : Disk} {old new s : Snapshot} {p : Path} {time : Stamp}

/-! ## Two snapshots -/

def paths (s : Snapshot) : Finset Path := (s.map Prod.fst).toFinset

/-- Each file stands once in the snapshot. -/
def Once (s : Snapshot) : Prop := (s.map Prod.fst).Nodup

/-- What has happened between two snapshots is told, and each file is named at most once. -/
structure Reports (old new : Snapshot) (changes : List FileChange) : Prop where
  once : (changes.map FileChange.path).Nodup
  added : ∀ p, ⟨.added, p⟩ ∈ changes ↔ p ∈ paths new ∧ p ∉ paths old
  removed : ∀ p, ⟨.removed, p⟩ ∈ changes ↔ p ∈ paths old ∧ p ∉ paths new
  changed : ∀ p, ⟨.changed, p⟩ ∈ changes ↔ ∃ before after, (p, before) ∈ old ∧ (p, after) ∈ new ∧ before ≠ after

theorem mem_paths : p ∈ paths s ↔ ∃ time, (p, time) ∈ s := by
  simp [paths]

theorem timeOf?_eq_none_iff : timeOf? p s = none ↔ p ∉ paths s := by
  rw [timeOf?, Option.map_eq_none_iff, List.find?_eq_none, paths, List.mem_toFinset, List.mem_map, not_exists]
  simp only [decide_eq_true_eq, not_and]

theorem mem_of_timeOf? (h : timeOf? p s = some time) : (p, time) ∈ s := by
  obtain ⟨⟨q, t⟩, hfind, rfl⟩ := Option.map_eq_some_iff.1 h
  have hq : q = p := by simpa using List.find?_some hfind
  exact hq ▸ List.mem_of_find?_eq_some hfind

theorem timeOf?_eq_some_iff (h : Once s) : timeOf? p s = some time ↔ (p, time) ∈ s := by
  refine ⟨mem_of_timeOf?, fun hmem => ?_⟩
  cases hfound : timeOf? p s with
  | none => exact absurd (mem_paths.2 ⟨time, hmem⟩) (timeOf?_eq_none_iff.1 hfound)
  | some t => exact congrArg (fun item => some item.2) (List.inj_on_of_nodup_map h (mem_of_timeOf? hfound) hmem rfl)

def added (old new : Snapshot) : List Path :=
  (new.filter fun item => (timeOf? item.1 old).isNone).map Prod.fst

def changed (old new : Snapshot) : List Path :=
  (new.filter fun item => (timeOf? item.1 old).any fun time => !decide (time = item.2)).map Prod.fst

/-- The files added come first, then those changed, then those removed, which are those added on the way back. -/
theorem differences_eq (old new : Snapshot) : differences old new =
    (added old new).map (⟨.added, ·⟩) ++ (changed old new).map (⟨.changed, ·⟩) ++
      (added new old).map (⟨.removed, ·⟩) := by
  have hnew : ∀ (kind : ChangeKind) (s t : Snapshot), (t.filterMap fun item =>
      if (timeOf? item.1 s).isNone then some (FileChange.mk kind item.1) else none) =
        (added s t).map (⟨kind, ·⟩) := by
    intro kind s t
    rw [added, List.map_map, ← List.filterMap_eq_map, List.filterMap_filter]
    rfl
  unfold differences
  refine congrArg₂ (· ++ ·) (congrArg₂ (· ++ ·) (hnew _ _ _) ?_) (hnew _ _ _)
  rw [changed, List.map_map, ← List.filterMap_eq_map, List.filterMap_filter]
  refine List.filterMap_congr fun item _ => ?_
  cases timeOf? item.1 old with
  | none => rfl
  | some time => by_cases h : time = item.2 <;> simp [h]

theorem mem_added : p ∈ added old new ↔ p ∈ paths new ∧ p ∉ paths old := by
  simp only [added, List.mem_map, List.mem_filter, Option.isNone_iff_eq_none, timeOf?_eq_none_iff, mem_paths]
  constructor
  · rintro ⟨⟨q, time⟩, ⟨hmem, hnew⟩, rfl⟩
    exact ⟨⟨time, hmem⟩, hnew⟩
  · rintro ⟨⟨time, hmem⟩, hnew⟩
    exact ⟨(p, time), ⟨hmem, hnew⟩, rfl⟩

theorem mem_changed (h : Once old) : p ∈ changed old new ↔
    ∃ before after, (p, before) ∈ old ∧ (p, after) ∈ new ∧ before ≠ after := by
  simp only [changed, List.mem_map, List.mem_filter, Option.any_eq_true, timeOf?_eq_some_iff h, Bool.not_eq_true',
    decide_eq_false_iff_not]
  constructor
  · rintro ⟨⟨q, after⟩, ⟨hmem, before, hold, hne⟩, rfl⟩
    exact ⟨before, after, hold, hmem, hne⟩
  · rintro ⟨before, after, hold, hmem, hne⟩
    exact ⟨(p, after), ⟨hmem, before, hold, hne⟩, rfl⟩

theorem Once.added (h : Once new) (old : Snapshot) : (Watcher.added old new).Nodup :=
  h.sublist (List.filter_sublist.map _)

theorem Once.changed (h : Once new) (old : Snapshot) : (Watcher.changed old new).Nodup :=
  h.sublist (List.filter_sublist.map _)

/-- A poll tells what has happened between two snapshots. -/
theorem differences_report (hold : Once old) (hnew : Once new) : Reports old new (differences old new) := by
  rw [differences_eq]
  refine ⟨?_, fun p => ?_, fun p => ?_, fun p => ?_⟩
  · simp only [List.map_append, List.map_map, Function.comp_def, List.map_id']
    refine List.nodup_append.2 ⟨List.nodup_append.2 ⟨hnew.added old, hnew.changed old, ?_⟩, hold.added new, ?_⟩
    · rintro p hp _ hq rfl
      obtain ⟨before, -, hbefore, -, -⟩ := (mem_changed hold).1 hq
      exact (mem_added.1 hp).2 (mem_paths.2 ⟨before, hbefore⟩)
    · rintro p hp _ hq rfl
      refine (mem_added.1 hq).2 ?_
      rcases List.mem_append.1 hp with hp | hp
      · exact (mem_added.1 hp).1
      · obtain ⟨-, after, -, hafter, -⟩ := (mem_changed hold).1 hp
        exact mem_paths.2 ⟨after, hafter⟩
  · simp [mem_added]
  · simp [mem_added]
  · simp [mem_changed hold]

/-- What has happened between two snapshots leads from the files of the one to those of the other. -/
theorem followAll?_differences (hold : Once old) (hnew : Once new) :
    FileChange.followAll? (paths old) (differences old new) = some (paths new) := by
  -- the files added join the old ones first, and those gone are taken from both
  have hkept : ∀ p ∈ changed old new, p ∈ paths old ∪ (added old new).toFinset := fun p hp => by
    obtain ⟨before, -, hbefore, -, -⟩ := (mem_changed hold).1 hp
    exact Finset.mem_union_left _ (mem_paths.2 ⟨before, hbefore⟩)
  have hgone : ∀ p ∈ added new old, p ∈ paths old ∪ (added old new).toFinset := fun p hp =>
    Finset.mem_union_left _ (mem_added.1 hp).1
  have hleft : (paths old ∪ (added old new).toFinset) \ (added new old).toFinset = paths new := by
    ext p
    simp only [Finset.mem_sdiff, Finset.mem_union, List.mem_toFinset, mem_added]
    tauto
  rw [differences_eq, FileChange.followAll?_append, FileChange.followAll?_append,
    FileChange.followAll?_added (hnew.added old) fun p hp => (mem_added.1 hp).2, Option.bind_some,
    FileChange.followAll?_changed hkept, Option.bind_some, FileChange.followAll?_removed (hold.added new) hgone, hleft]

/-! ## Snapshots of a disk -/

theorem watches_known (w : Watcher) (s : Snapshot) (dir : Path) (names : List Text) :
    { w with known := s }.watches dir names = w.watches dir names := by
  induction names generalizing dir with
  | nil => rfl
  | cons name rest ih =>
    cases rest with
    | nil => rfl
    | cons next rest => exact congrArg (w.enters ⟨dir.anchor, dir.parts ++ [name]⟩ && ·) (ih _)

theorem snapshot_start (w : Watcher) (known disk : Disk) : (w.start known).snapshot disk = w.snapshot disk := by
  unfold snapshot start
  simp only [watches_known]

/-- A file that is seen stands below a location, under the same names as below the root. -/
theorem snapshot_eq (w : Watcher) (disk : Disk) : ∃ (loc : Location) (see : Location × Entry → Option (Path × Stamp)),
    w.snapshot disk = disk.tree.filterMap see ∧ ∀ item seen, see item = some seen →
      ∃ names, item.1 = loc ++ names ∧ seen.1 = ⟨w.root.anchor, w.root.parts ++ names⟩ := by
  unfold snapshot
  split
  · rename_i loc hplace
    refine ⟨loc, _, rfl, fun item seen hseen => ?_⟩
    split at hseen
    · rename_i names bytes stamp hbelow _
      split at hseen
      · cases hseen
        exact ⟨names, FileTree.below?_eq_some.1 hbelow, rfl⟩
      · cases hseen
    · cases hseen
  · refine ⟨[], fun _ => none, by simp, fun item seen hseen => ?_⟩
    cases hseen

theorem once_snapshot (w : Watcher) (h : FileTree.Once disk.tree) : Once (w.snapshot disk) := by
  obtain ⟨loc, see, hsnapshot, hsee⟩ := snapshot_eq w disk
  rw [hsnapshot, Once, List.Nodup, List.pairwise_map]
  -- two locations are seen as one path only if they are the same
  refine (List.pairwise_map.1 h).filterMap _ fun a b hne seen hseen seen' hseen' heq => hne ?_
  obtain ⟨names, hloc, hpath⟩ := hsee a seen hseen
  obtain ⟨names', hloc', hpath'⟩ := hsee b seen' hseen'
  rw [hpath, hpath', Path.mk.injEq, List.append_cancel_left_eq] at heq
  rw [hloc, hloc', heq.2]

end Watcher

namespace Watching

open Watcher (Reports Once paths)

variable {v : Watcher} {w : Watching} {disk next : Disk} {disks : List Disk} {files : Finset Path}

/-! ## Runs of polls -/

/-- The watcher knows the disk, and the changes in its queue lead from the files to those on the disk. -/
structure Current (v : Watcher) (files : Finset Path) (disk : Disk) (w : Watching) : Prop where
  watcher : w.watcher = v.start disk
  queue : FileChange.followAll? files w.queue = some (paths (v.snapshot disk))

theorem poll_known (h : w.watcher = v.start disk) (next : Disk) : w.poll next =
    (Watcher.differences (v.snapshot disk) (v.snapshot next),
      ⟨v.start next, w.queue ++ Watcher.differences (v.snapshot disk) (v.snapshot next)⟩) := by
  unfold poll Watcher.poll
  rw [h, Watcher.snapshot_start]
  rfl

theorem Current.poll (h : Current v files disk w) (hdisk : FileTree.Once disk.tree) (hnext : FileTree.Once next.tree) :
    Reports (v.snapshot disk) (v.snapshot next) (w.poll next).1 ∧ Current v files next (w.poll next).2 := by
  have hold := Watcher.once_snapshot v hdisk
  have hnew := Watcher.once_snapshot v hnext
  rw [poll_known h.watcher]
  refine ⟨Watcher.differences_report hold hnew, rfl, ?_⟩
  rw [FileChange.followAll?_append, h.queue, Option.bind_some, Watcher.followAll?_differences hold hnew]

theorem polls_cons (w : Watching) (next : Disk) (disks : List Disk) : w.polls (next :: disks) =
    ((w.poll next).1 :: ((w.poll next).2.polls disks).1, ((w.poll next).2.polls disks).2) := rfl

theorem Current.polls (h : Current v files disk w) (honce : ∀ d ∈ disk :: disks, FileTree.Once d.tree) :
    List.Forall₂ (fun seen report => Reports (v.snapshot seen.1) (v.snapshot seen.2) report)
      ((disk :: disks).zip disks) (w.polls disks).1 ∧
    Current v files ((disk :: disks).getLast (List.cons_ne_nil _ _)) (w.polls disks).2 := by
  -- on the disks to come: each poll hands the next one a watcher that knows the disk before
  induction disks generalizing w disk with
  | nil => exact ⟨.nil, h⟩
  | cons next disks ih =>
    obtain ⟨hdisk, hlater⟩ := List.forall_mem_cons.1 honce
    obtain ⟨hreport, hcurrent⟩ := h.poll hdisk (hlater next List.mem_cons_self)
    obtain ⟨hreports, hlast⟩ := ih hcurrent hlater
    rw [polls_cons]
    exact ⟨.cons hreport hreports, hlast⟩

theorem queue_polls (w : Watching) (disks : List Disk) :
    (w.polls disks).2.queue = w.queue ++ (w.polls disks).1.flatten := by
  induction disks generalizing w with
  | nil => rw [polls, List.flatten_nil, List.append_nil]
  | cons next disks ih =>
    have hqueue : (w.poll next).2.queue = w.queue ++ (w.poll next).1 := rfl
    rw [polls_cons, ih, hqueue, List.flatten_cons, List.append_assoc]

/-- Every poll of a run tells what has happened since the poll before it, and names each file at most once. What the
polls tell stands in the queue in one row, and followed from the files at the start it leads to those that the last
poll saw: no file is added that is there, and none is changed or removed that is not. -/
theorem polls_report (v : Watcher) (disk : Disk) (disks : List Disk)
    (honce : ∀ d ∈ disk :: disks, FileTree.Once d.tree) :
    let run := Watching.polls (Watching.start ⟨v, []⟩ disk) disks
    List.Forall₂ (fun seen report => Reports (v.snapshot seen.1) (v.snapshot seen.2) report)
      ((disk :: disks).zip disks) run.1 ∧
    run.2.queue = run.1.flatten ∧
    FileChange.followAll? (paths (v.snapshot disk)) run.2.queue =
      some (paths (v.snapshot ((disk :: disks).getLast (List.cons_ne_nil _ _)))) := by
  have hstart : Current v (paths (v.snapshot disk)) disk (Watching.start ⟨v, []⟩ disk) := ⟨rfl, rfl⟩
  obtain ⟨hreports, hlast⟩ := hstart.polls honce
  exact ⟨hreports, queue_polls _ _, hlast.queue⟩

def siteRoot : Path := ⟨.root, ["site".toList]⟩

def siteWatcher : Watcher := ⟨siteRoot, [".html".toList, ".ts".toList], [], [], []⟩

/-- A disk with some files in the directory that is watched. -/
def siteDisk (files : List (Text × Int)) : Disk :=
  ⟨([], .directory) :: (["site".toList], .directory) ::
    files.map fun f => (["site".toList, f.1], .file [] (.seconds f.2)), [], 0⟩

def siteDisks : List Disk :=
  [siteDisk [("a.html".toList, 1), ("b.ts".toList, 1), ("logo.png".toList, 1)],
    siteDisk [("a.html".toList, 2), ("c.html".toList, 1)],
    siteDisk [("b.ts".toList, 1), ("a.html".toList, 2), ("c.html".toList, 1)]]

theorem polls_report_site : (∀ d ∈ siteDisk [] :: siteDisks, FileTree.Once d.tree) ∧
    let run := Watching.polls (Watching.start ⟨siteWatcher, []⟩ (siteDisk [])) siteDisks
    let of := fun kind name => FileChange.mk kind ⟨.root, ["site".toList, name]⟩
    run.1 = [[of .added "a.html".toList, of .added "b.ts".toList],
      [of .added "c.html".toList, of .changed "a.html".toList, of .removed "b.ts".toList], [of .added "b.ts".toList]] ∧
    List.Forall₂ (fun seen report => Reports (siteWatcher.snapshot seen.1) (siteWatcher.snapshot seen.2) report)
      ((siteDisk [] :: siteDisks).zip siteDisks) run.1 ∧
    FileChange.followAll? (paths (siteWatcher.snapshot (siteDisk []))) run.2.queue =
      some (paths (siteWatcher.snapshot
        (siteDisk [("b.ts".toList, 1), ("a.html".toList, 2), ("c.html".toList, 1)]))) := by
  have honce : ∀ d ∈ siteDisk [] :: siteDisks, FileTree.Once d.tree := by
    simp only [siteDisks, List.forall_mem_cons, FileTree.Once]
    exact ⟨by decide, by decide, by decide, by decide, List.forall_mem_nil _⟩
  obtain ⟨hreports, -, hfollow⟩ := polls_report siteWatcher (siteDisk []) siteDisks honce
  exact ⟨honce, by cbv, hreports, hfollow⟩

end Watching
end Sitewright
