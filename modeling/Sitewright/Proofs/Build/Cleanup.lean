import Sitewright.Build.Run
import Sitewright.Proofs.File.Change
import Sitewright.Proofs.Outcome
import Sitewright.Proofs.Site
/-!
# What a build leaves behind

A build prepares itself, which ends with an empty output directory, and goes through its stages; whatever
becomes of these, the temporary directories are removed.

* `Project`: a disk with the root of a project, and plain names for the temporary and output directories.
* `prepare`, `stages`: a build without its clean-up.
* `Clear`: what holds from the emptied output directory to the bundler.

Main statement: a build that cannot prepare itself changes no file; each other one ends as its stages end
and leaves no temporary directory, unless their name is too long for the file system to look at
(`run_leaves_no_pages`).
-/
set_option autoImplicit false

namespace Sitewright.Build

open FileTree (Within SameDirectories entryAt nameLimit)
open Job (outcome Keeps outcome_bind outcome_look outcome_ask)

/-! ## Projects -/

/-- The root of a site is named without detours, and its temporary and output directories plainly. -/
structure Named (site : Site) : Prop where
  absolute : site.root.anchor = .root
  straight : site.root.Straight
  tmpName : Path.PlainName site.tmpDir
  outName : Path.PlainName site.outDir

/-- A project stands on a disk: the root of its site is a directory. -/
structure Project (site : Site) (d : Disk) : Prop extends Named site where
  standing : d.isDirectory site.root = .ok true

variable {site : Site} {d : Disk}

theorem straight_child {p : Path} {name : Text} (hp : p.Straight) (hname : name ≠ ['.', '.']) :
    (p.child name).Straight := by
  intro h
  rcases List.mem_append.1 h with h | h
  · exact hp h
  · exact hname (List.mem_singleton.1 h).symm

theorem short_child {p : Path} {name : Text} (hp : p.Short) (hname : Utf8.size name ≤ nameLimit) :
    (p.child name).Short := by
  intro part hpart
  rcases List.mem_append.1 hpart with h | h
  · exact hp part h
  · rw [List.mem_singleton.1 h]
    exact hname

namespace Named

theorem tmpRoot_eq (h : Named site) : site.tmpRoot = site.root.child site.tmpDir := h.tmpName.join_eq _

theorem outRoot_eq (h : Named site) : site.outRoot = site.root.child site.outDir := h.outName.join_eq _

theorem bundledRoot_eq (h : Named site) : site.bundledRoot = site.outRoot.child site.tmpDir :=
  h.tmpName.join_eq _

theorem tmpRoot_straight (h : Named site) : site.tmpRoot.Straight := by
  rw [h.tmpRoot_eq]
  exact straight_child h.straight h.tmpName.not_dots

theorem outRoot_straight (h : Named site) : site.outRoot.Straight := by
  rw [h.outRoot_eq]
  exact straight_child h.straight h.outName.not_dots

theorem bundledRoot_straight (h : Named site) : site.bundledRoot.Straight := by
  rw [h.bundledRoot_eq]
  exact straight_child h.outRoot_straight h.tmpName.not_dots

theorem ofLocation_outRoot (h : Named site) (here : Location) :
    Path.ofLocation (site.outRoot.resolve here) = site.outRoot := by
  have hparts : ['.', '.'] ∉ site.outRoot.parts := h.outRoot_straight
  rw [h.outRoot_eq] at hparts ⊢
  unfold Path.resolve Path.ofLocation Path.child at *
  rw [h.absolute]
  simp only
  rw [Path.follow_of_not_mem hparts]
  rfl

end Named

/-! ## Removing the temporary directories -/

def notRemoved (p : Path) : Notice :=
  ⟨.warning, "Could not remove ".toList ++ p.toText ++ ": ".toList ++
    (Failure.file (.flaw .notDirectory p.toText)).message⟩

theorem outcome_discard_directory {p : Path} (hp : p.Straight) {w : Workspace} {loc : Location}
    (hplace : w.disk.place p = .ok (.entry loc .directory)) :
    outcome (discard p) w = (.ok (), { w with disk := w.disk.pruned loc }) := by
  unfold discard
  rw [outcome_bind, outcome_ask, Disk.exists?_of_place hplace]
  simp only [Except.mapError, if_true]
  rw [outcome_bind, Job.outcome_attempt, Job.outcome_changeBySteps, Disk.removeTree_directory hp hplace]
  rfl

theorem outcome_discard_file {p : Path} {w : Workspace} {loc : Location} {bytes : Bytes} {stamp : Stamp}
    (hplace : w.disk.place p = .ok (.entry loc (.file bytes stamp))) :
    outcome (discard p) w = (.ok (), { w with log := w.log ++ [notRemoved p] }) := by
  unfold discard
  rw [outcome_bind, outcome_ask, Disk.exists?_of_place hplace]
  simp only [Except.mapError, if_true]
  rw [outcome_bind, Job.outcome_attempt, Job.outcome_changeBySteps, Disk.removeTree, hplace]
  rfl

theorem outcome_discard_nothing {p : Path} {w : Workspace} (h : w.disk.exists? p = .ok false) :
    outcome (discard p) w = (.ok (), w) := by
  unfold discard
  rw [outcome_bind, outcome_ask, h]
  rfl

theorem outcome_discard {p : Path} (hp : p.Straight) (hshort : p.Short) (w : Workspace) :
    ∃ w', outcome (discard p) w = (.ok (), w') ∧ Within w'.disk.tree w.disk.tree ∧
      w'.disk.here = w.disk.here ∧ (w.disk.isFile p ≠ .ok true → w'.disk.exists? p = .ok false) := by
  have hnothing : (∀ loc e, w.disk.place p ≠ .ok (.entry loc e)) → ∃ w', outcome (discard p) w = (.ok (), w') ∧
      Within w'.disk.tree w.disk.tree ∧ w'.disk.here = w.disk.here ∧
      (w.disk.isFile p ≠ .ok true → w'.disk.exists? p = .ok false) := fun hnone => by
    have hgone := Disk.exists?_eq_false_of_place hshort hnone
    exact ⟨w, outcome_discard_nothing hgone, .refl _, rfl, fun _ => hgone⟩
  rcases hplace : w.disk.place p with e | ⟨loc, _ | ⟨bytes, stamp⟩⟩ | loc
  · exact hnothing fun loc e hc => by rw [hplace] at hc; cases hc
  · exact ⟨_, outcome_discard_directory hp hplace, Disk.within_prune loc _, rfl, fun _ => Disk.exists?_pruned hp hplace⟩
  · exact ⟨_, outcome_discard_file hplace, .refl _, rfl, fun hfile => absurd (Disk.isFile_of_place hplace) hfile⟩
  · exact hnothing fun loc e hc => by rw [hplace] at hc; cases hc

theorem temporaryRoots_eq {artifacts : Option Artifacts}
    (h : ∀ a ∈ artifacts, a.tmpRoots = [site.tmpRoot]) :
    temporaryRoots site artifacts = [site.bundledRoot, site.tmpRoot] := by
  unfold temporaryRoots
  cases artifacts with
  | none => rfl
  | some a =>
    rw [Option.map_some, h a rfl]
    simp [addMissing]

theorem outcome_cleanUp {artifacts : Option Artifacts} (h : ∀ a ∈ artifacts, a.tmpRoots = [site.tmpRoot])
    (w : Workspace) :
    outcome (cleanUp site artifacts) w =
      outcome (discard site.bundledRoot >>= fun _ => discard site.tmpRoot) w := by
  unfold cleanUp
  rw [temporaryRoots_eq h]
  show outcome (discard site.bundledRoot >>= fun _ => discard site.tmpRoot >>= fun _ =>
    (pure ⟨⟩ : Job PUnit)) w = _
  rw [outcome_bind, outcome_bind]
  rcases outcome (discard site.bundledRoot) w with ⟨r, w₁⟩
  cases r with
  | error e => rfl
  | ok u =>
    simp only
    rw [outcome_bind]
    rcases outcome (discard site.tmpRoot) w₁ with ⟨q, w₂⟩
    cases q <;> rfl

/-- What is not there holds nothing. -/
theorem exists?_child_false {p : Path} {name : Text} (hname : Path.PlainName name)
    (h : d.exists? p = .ok false) : d.exists? (p.child name) = .ok false := by
  rw [Disk.exists?_eq_false] at h ⊢
  have hplace := Disk.place_child (d := d) (p := p) hname.not_dots hname.noNul
  unfold Disk.look at h ⊢
  rw [hplace]
  rcases hp : d.place p with (⟨flaw, path⟩ | _) | ⟨loc, _ | ⟨bytes, stamp⟩⟩ | loc
  · rw [hp] at h
    cases flaw <;> first | rfl | cases h
  · rfl
  · rw [hp] at h
    cases h
  · rfl
  · rfl

theorem isFile_child {p : Path} {name : Text} (hname : Path.PlainName name)
    (h : d.isFile (p.child name) = .ok true) : d.isDirectory p = .ok true := by
  obtain ⟨loc, bytes, stamp, hchild⟩ := Disk.place_of_isFile h
  exact Disk.isDirectory_of_place_child hname.not_dots hname.noNul hchild

/-- After the clean-up neither temporary directory is there, unless a file stands in its place. The bundled
pages may be a file where the output directory is the temporary directory itself. -/
theorem cleanUp_ok (hnamed : Named site) {artifacts : Option Artifacts}
    (hroots : ∀ a ∈ artifacts, a.tmpRoots = [site.tmpRoot]) (htmp : site.tmpRoot.Short)
    (hbundled : site.bundledRoot.Short) {w : Workspace} (hfile : w.disk.isFile site.tmpRoot ≠ .ok true)
    (hfile' : site.outDir = site.tmpDir ∨ w.disk.isFile site.bundledRoot ≠ .ok true) :
    ∃ w', outcome (cleanUp site artifacts) w = (.ok (), w') ∧
      w'.disk.exists? site.tmpRoot = .ok false ∧ w'.disk.exists? site.bundledRoot = .ok false := by
  obtain ⟨w₁, hrun₁, hwithin₁, hhere₁, hgone₁⟩ := outcome_discard hnamed.bundledRoot_straight hbundled w
  obtain ⟨w₂, hrun₂, hwithin₂, hhere₂, hgone₂⟩ := outcome_discard hnamed.tmpRoot_straight htmp w₁
  have htmpGone : w₂.disk.exists? site.tmpRoot = .ok false :=
    hgone₂ fun hc => hfile (Disk.isFile_of_within hhere₁ hwithin₁ hc)
  refine ⟨w₂, ?_, htmpGone, ?_⟩
  · rw [outcome_cleanUp hroots, outcome_bind, hrun₁]
    exact hrun₂
  · rcases hfile' with heq | hfile'
    · rw [hnamed.bundledRoot_eq, hnamed.outRoot_eq, heq, ← hnamed.tmpRoot_eq]
      exact exists?_child_false hnamed.tmpName htmpGone
    · exact Disk.exists?_false_of_within hhere₂ hwithin₂ (hgone₁ hfile')

/-! ## Emptying the output directory -/

/-- Emptying the output directory fails and changes nothing, or the directory is not there, or it is removed
with all that it holds. -/
theorem outcome_emptyOutput (hnamed : Named site) (w : Workspace) :
    (∃ e, outcome (emptyOutput site) w = (.error e, w)) ∨
      (outcome (emptyOutput site) w = (.ok (), w) ∧ w.disk.exists? site.outRoot = .ok false) ∨
      ∃ loc, w.disk.place site.outRoot = .ok (.entry loc .directory) ∧
        outcome (emptyOutput site) w = (.ok (), { w with disk := w.disk.pruned loc }) := by
  unfold emptyOutput
  rw [outcome_bind, Job.outcome_get]
  simp only [hnamed.ofLocation_outRoot]
  by_cases hnul : site.outRoot.hasNul = true
  · rw [if_pos hnul]
    exact .inl ⟨_, rfl⟩
  · rw [if_neg hnul]
    by_cases hholds : holds (site.outRoot.resolve w.disk.here) (site.root.resolve w.disk.here) = true
    · rw [if_pos hholds]
      exact .inl ⟨_, rfl⟩
    · rw [if_neg hholds]
      rw [outcome_bind, outcome_ask]
      cases hexists : w.disk.exists? site.outRoot with
      | error e => exact .inl ⟨_, rfl⟩
      | ok there =>
        cases there with
        | false => exact .inr (.inl ⟨rfl, rfl⟩)
        | true =>
          simp only [Except.mapError, if_true]
          rw [Job.outcome_changeBySteps]
          obtain ⟨loc, e, hplace⟩ := Disk.place_of_exists hexists
          cases e with
          | directory =>
            rw [Disk.removeTree_directory hnamed.outRoot_straight hplace]
            exact .inr (.inr ⟨loc, hplace, rfl⟩)
          | file bytes stamp =>
            rw [Disk.removeTree, hplace]
            exact .inl ⟨_, rfl⟩

/-- Before the pages are bundled no file stands in the place of the temporary directory, and the output
directory is not there unless it is the temporary directory itself. -/
structure Clear (site : Site) (d : Disk) : Prop where
  standing : d.isDirectory site.root = .ok true
  tmp : d.isFile site.tmpRoot ≠ .ok true
  out : site.outDir = site.tmpDir ∨ d.isDirectory site.outRoot ≠ .ok true

theorem isDirectory_ne_of_exists {p : Path} (h : d.exists? p = .ok false) : d.isDirectory p ≠ .ok true := by
  intro hc
  obtain ⟨loc, hp⟩ := Disk.isDirectory_eq_true.1 hc
  rw [Disk.exists?_of_place hp] at h
  cases h

/-- What stands above a branch stays where the branch is removed. -/
theorem isDirectory_pruned {p q : Path} {loc : Location} (hp : p.Straight) (hq : q.Straight)
    (hanchor : p.anchor = q.anchor) (hshort : p.parts.length < q.parts.length)
    (hplace : d.place q = .ok (.entry loc .directory)) (h : d.isDirectory p = .ok true) :
    (d.pruned loc).isDirectory p = .ok true := by
  obtain ⟨l, hl⟩ := Disk.isDirectory_eq_true.1 h
  have hloc : loc = d.start q.anchor ++ q.parts := Disk.location_of_straight hq hplace
  have hsame : (d.pruned loc).place p = d.place p := by
    refine Disk.place_congr_of_straight (d := d) hp rfl fun l' hl' => ?_
    rw [Disk.entryAt_pruned, if_neg]
    intro hbelow
    have hlen := hbelow.length_le
    have hlen' := hl'.length_le
    rw [hloc, List.length_append] at hlen
    rw [List.length_append, hanchor] at hlen'
    omega
  exact Disk.isDirectory_eq_true.2 ⟨l, hsame.trans hl⟩

theorem Project.clear_of_emptyOutput {w w' : Workspace} (h : Project site w.disk)
    (hfile : w.disk.isFile site.tmpRoot ≠ .ok true)
    (hrun : outcome (emptyOutput site) w = (.ok (), w')) : Clear site w'.disk := by
  rcases outcome_emptyOutput h.toNamed w with ⟨e, hempty⟩ | ⟨hempty, hgone⟩ | ⟨loc, hplace, hempty⟩
  · rw [hempty] at hrun
    cases hrun
  · rw [hempty] at hrun
    cases hrun
    exact ⟨h.standing, hfile, .inr (isDirectory_ne_of_exists hgone)⟩
  · rw [hempty] at hrun
    cases hrun
    have hwithin : Within (w.disk.pruned loc).tree w.disk.tree := Disk.within_prune loc w.disk.tree
    have hhere : (w.disk.pruned loc).here = w.disk.here := rfl
    refine ⟨?_, fun hc => hfile (Disk.isFile_of_within hhere hwithin hc), .inr ?_⟩
    · refine isDirectory_pruned h.straight h.outRoot_straight ?_ ?_ hplace h.standing
      · rw [h.outRoot_eq]
        rfl
      · rw [h.outRoot_eq, Path.child, List.length_append, List.length_singleton]
        omega
    · exact isDirectory_ne_of_exists (Disk.exists?_pruned h.outRoot_straight hplace)

/-! ## Materialising -/

/-- A property of the disk depends on its directories alone. -/
def OnDirectories (I : Disk → Prop) : Prop :=
  ∀ d d' : Disk, SameDirectories d.tree d'.tree → d'.here = d.here → I d → I d'

variable {I : Disk → Prop}

theorem OnDirectories.writeText (h : OnDirectories I) (path : Path) (s : Text) :
    Keeps I (Job.writeText path s) := by
  refine Keeps.change fun d d' hwrite hd => ?_
  obtain ⟨hsame, hhere⟩ := Disk.writeBytes_sameDirectories hwrite
  exact h d d' hsame hhere hd

theorem OnDirectories.writeEntry (h : OnDirectories I) (page : Page) (fragment : Text) :
    Keeps I (writeEntry site page fragment) := by
  unfold Build.writeEntry
  cases page.script with
  | none => exact .pure none
  | some path =>
    refine (Keeps.ask _).bind fun there => ?_
    cases there with
    | false => exact .pure none
    | true => exact (Keeps.look _).bind fun script => (h.writeText path script).bind fun _ => .pure (some path)

theorem OnDirectories.materializePage (h : OnDirectories I) (tree : Variables) (page : Page) :
    Keeps I (materializePage site tree page) := by
  unfold Build.materializePage
  refine (Keeps.look _).bind fun fragment => ?_
  refine (h.writeEntry page fragment).bind fun entry => ?_
  refine (Keeps.look _).bind fun html => ?_
  exact (h.writeText _ html).bind fun _ => .pure _

theorem OnDirectories.materializeAll (h : OnDirectories I) (tree : Variables) (pages : Keyed Page)
    (made : Artifacts) : Keeps I (materializeAll site tree pages made) := by
  induction pages generalizing made with
  | nil => exact .pure made
  | cons item rest ih =>
    obtain ⟨route, page⟩ := item
    unfold Build.materializeAll
    exact (h.materializePage tree page).bind fun _ => ih _

/-- What holds from the making of the temporary directory on. -/
structure Open (site : Site) (d : Disk) : Prop where
  standing : d.isDirectory site.root = .ok true
  tmp : d.isDirectory site.tmpRoot = .ok true
  out : site.outDir = site.tmpDir ∨ d.isDirectory site.outRoot ≠ .ok true

theorem Open.clear (h : Open site d) : Clear site d :=
  ⟨h.standing, Disk.isFile_ne_of_isDirectory h.tmp, h.out⟩

theorem onDirectories_open (site : Site) : OnDirectories (Open site) := by
  intro d d' hsame hhere h
  refine ⟨(Disk.isDirectory_congr hsame hhere).2 h.standing, (Disk.isDirectory_congr hsame hhere).2 h.tmp, ?_⟩
  rcases h.out with heq | hout
  · exact .inl heq
  · exact .inr fun hc => hout ((Disk.isDirectory_congr hsame hhere).1 hc)

theorem place_put_child {p q : Path} {loc : Location} {e : Entry} (hq : q.Straight)
    (hp : d.place p = .ok (.vacant loc)) (hpstraight : p.Straight) (hanchor : q.anchor = p.anchor)
    (hlen : q.parts.length ≤ p.parts.length) (hne : q.parts ≠ p.parts) :
    ({ d with tree := FileTree.put loc e d.tree } : Disk).place q = d.place q := by
  refine Disk.place_congr_of_straight (d := d) hq rfl fun l hl => ?_
  have hloc : loc = d.start p.anchor ++ p.parts := Disk.location_of_straight hpstraight hp
  refine FileTree.entryAt_put_of_ne ?_ e d.tree
  rintro rfl
  rw [hloc, hanchor] at hl
  have hfront := (List.prefix_append_right_inj _).1 hl
  exact hne (hfront.eq_of_length_le hlen).symm

/-- A directory that has been made in another one is there. -/
theorem place_put_self {p : Path} {name : Text} {loc : Location} (hp : p.Straight)
    (hname : Path.PlainName name) (hdir : d.place p = .ok (.entry loc .directory))
    (hvacant : d.place (p.child name) = .ok (.vacant (loc ++ [name]))) :
    ({ d with tree := FileTree.put (loc ++ [name]) .directory d.tree } : Disk).place (p.child name) =
      .ok (.entry (loc ++ [name]) .directory) := by
  have hlen : (p.child name).parts.length = p.parts.length + 1 := by
    rw [Path.child, List.length_append, List.length_singleton]
  have hkept := place_put_child (e := .directory) hp hvacant (straight_child hp hname.not_dots) rfl (by omega)
    (fun hc => by
      rw [← hc] at hlen
      omega)
  have hsize : ¬ Utf8.size name > nameLimit := by
    intro hsize
    have hplace := Disk.place_child_of_directory hname hdir
    rw [hvacant, if_pos hsize] at hplace
    cases hplace
  rw [Disk.place_child_of_directory hname (hkept.trans hdir), if_neg hsize, FileTree.entryAt_put_self]

theorem Clear.open_of_made (hnamed : Named site) (h : Clear site d) {loc : Location}
    (hroot : d.place site.root = .ok (.entry loc .directory))
    (hvacant : d.place site.tmpRoot = .ok (.vacant (loc ++ [site.tmpDir]))) :
    Open site { d with tree := FileTree.put (loc ++ [site.tmpDir]) .directory d.tree } := by
  have htmp : site.tmpRoot = ⟨site.root.anchor, site.root.parts ++ [site.tmpDir]⟩ := hnamed.tmpRoot_eq
  have hout : site.outRoot = ⟨site.root.anchor, site.root.parts ++ [site.outDir]⟩ := hnamed.outRoot_eq
  have hkept : ∀ q : Path, q.Straight → q.anchor = site.root.anchor → q.parts.length ≤ site.root.parts.length + 1 →
      q.parts ≠ site.root.parts ++ [site.tmpDir] →
      ({ d with tree := FileTree.put (loc ++ [site.tmpDir]) .directory d.tree } : Disk).place q = d.place q := by
    intro q hq hanchor hlen hne
    refine place_put_child hq hvacant hnamed.tmpRoot_straight (by rw [htmp, hanchor]) ?_ (by rwa [htmp])
    rw [htmp, List.length_append, List.length_singleton]
    exact hlen
  refine ⟨?_, ?_, ?_⟩
  · rw [Disk.isDirectory_eq_true]
    refine ⟨loc, (hkept site.root hnamed.straight rfl (by omega) fun hc => ?_).trans hroot⟩
    have := congrArg List.length hc
    rw [List.length_append, List.length_singleton] at this
    omega
  · rw [Disk.isDirectory_eq_true]
    rw [hnamed.tmpRoot_eq] at hvacant ⊢
    exact ⟨loc ++ [site.tmpDir], place_put_self hnamed.straight hnamed.tmpName hroot hvacant⟩
  · by_cases heq : site.outDir = site.tmpDir
    · exact .inl heq
    · refine .inr fun hc => h.out.resolve_left heq ?_
      rw [Disk.isDirectory_eq_true] at hc ⊢
      obtain ⟨l, hl⟩ := hc
      refine ⟨l, (hkept site.outRoot hnamed.outRoot_straight (by rw [hout]) ?_ fun hparts => ?_).symm.trans hl⟩
      · rw [hout]
        have hlength : (site.root.parts ++ [site.outDir]).length = site.root.parts.length + 1 := by simp
        exact Nat.le_of_eq hlength
      · rw [hout] at hparts
        exact heq (List.singleton_inj.1 (List.append_cancel_left hparts))

theorem Clear.ensureDirectories (hnamed : Named site) (h : Clear site d) :
    Clear site (d.ensureDirectories site.tmpRoot).1 ∧
      ((d.ensureDirectories site.tmpRoot).2 = .ok () → Open site (d.ensureDirectories site.tmpRoot).1) := by
  obtain ⟨loc, hroot⟩ := Disk.isDirectory_eq_true.1 h.standing
  have htmp := hnamed.tmpRoot_eq
  rcases Disk.ensureDirectories_child hnamed.tmpName hroot with ⟨hvacant, hmade⟩ | ⟨hdir, hmade⟩ | ⟨e, hmade⟩
  · rw [← htmp] at hvacant hmade
    have hopen := h.open_of_made hnamed hroot hvacant
    rw [hmade]
    exact ⟨hopen.clear, fun _ => hopen⟩
  · rw [← htmp] at hdir hmade
    rw [hmade]
    exact ⟨h, fun _ => ⟨h.standing, hdir, h.out⟩⟩
  · rw [← htmp] at hmade
    rw [hmade]
    exact ⟨h, fun hc => by cases hc⟩

/-- The directories that are recorded for removal are those that the job was given. -/
theorem tmpRoots_materializeAll {tree : Variables} {pages : Keyed Page} {made a : Artifacts}
    {w w' : Workspace} (h : outcome (materializeAll site tree pages made) w = (.ok a, w')) :
    a.tmpRoots = made.tmpRoots := by
  induction pages generalizing made w with
  | nil =>
    cases h
    rfl
  | cons item rest ih =>
    obtain ⟨route, page⟩ := item
    unfold materializeAll at h
    rw [outcome_bind] at h
    rcases hpage : outcome (materializePage site tree page) w with ⟨r, w₁⟩
    rw [hpage] at h
    cases r with
    | error e => cases h
    | ok files => exact (ih h :)

theorem clear_materializeSite (hnamed : Named site) (tree : Variables) {w : Workspace}
    (h : Clear site w.disk) :
    Clear site (outcome (materializeSite site tree) w).2.disk ∧
      ∀ a w', outcome (materializeSite site tree) w = (.ok a, w') → a.tmpRoots = [site.tmpRoot] := by
  unfold materializeSite
  rw [outcome_bind, outcome_look]
  rcases (Page.discover site).outcome w.disk w.log with ⟨pages | pages, l⟩
  · exact ⟨h, fun a w' hc => by cases hc⟩
  · simp only
    unfold materialize
    simp only
    by_cases hempty : pages.isEmpty = true
    · rw [if_pos hempty, outcome_bind, Job.outcome_note]
      refine ⟨h, fun a w' hc => ?_⟩
      cases hc
      rfl
    · rw [if_neg hempty, outcome_bind, Job.outcome_changeBySteps]
      obtain ⟨hclear, hopen⟩ := h.ensureDirectories hnamed
      cases hmade : (w.disk.ensureDirectories site.tmpRoot).2 with
      | error e => exact ⟨hclear, fun a w' hc => by cases hc⟩
      | ok u =>
        refine ⟨?_, fun a w' hc => tmpRoots_materializeAll hc⟩
        exact ((onDirectories_open site).materializeAll tree pages _ _ (hopen hmade)).clear

/-! ## Publishing -/

/-- What holds while the pages are published. -/
structure Publishing (site : Site) (d : Disk) : Prop where
  tmp : d.isFile site.tmpRoot ≠ .ok true
  bundled : d.isDirectory site.bundledRoot = .ok true

/-- A page is published beside the bundled pages, so further down than the temporary directory. -/
theorem publishing_writeBytes (hnamed : Named site) {d' : Disk} {name : Text} {bytes : Bytes}
    (hname : name ≠ ['.', '.']) (h : Publishing site d)
    (hwrite : d.writeBytes (site.outRoot.child name) bytes = .ok d') : Publishing site d' := by
  obtain ⟨hsame, hhere⟩ := Disk.writeBytes_sameDirectories hwrite
  refine ⟨fun hc => h.tmp ?_, (Disk.isDirectory_congr hsame hhere).2 h.bundled⟩
  obtain ⟨loc, rfl, hplace⟩ := Disk.writeBytes_eq_store hwrite
  have hstraight : (site.outRoot.child name).Straight := straight_child hnamed.outRoot_straight hname
  have hloc : loc = d.start .root ++ (site.root.parts ++ [site.outDir] ++ [name]) := by
    have hanchor : (site.outRoot.child name).anchor = .root := by
      rw [hnamed.outRoot_eq]
      exact hnamed.absolute
    have hparts : (site.outRoot.child name).parts = site.root.parts ++ [site.outDir] ++ [name] := by
      rw [hnamed.outRoot_eq]
      rfl
    rcases hplace with hp | ⟨old, stamp, hp⟩ <;>
    · have := Disk.location_of_straight hstraight hp
      rw [hanchor, hparts] at this
      exact this
  have hkept : (d.store loc bytes).place site.tmpRoot = d.place site.tmpRoot := by
    refine Disk.place_congr_of_straight (d := d) hnamed.tmpRoot_straight rfl fun l hl => ?_
    refine FileTree.entryAt_put_of_ne ?_ _ d.tree
    rintro rfl
    have hlen := hl.length_le
    rw [hnamed.tmpRoot_eq, hloc] at hlen
    simp only [Path.child, hnamed.absolute, List.length_append, List.length_singleton] at hlen
    omega
  rw [Disk.isFile, Disk.look_congr hkept] at hc
  exact hc

theorem keeps_publishPage (hnamed : Named site) (base : BaseAddress) {name : Text}
    (hname : isPageName name = true) : Keeps (Publishing site) (publishPage site base name) := by
  have hdots : name ≠ ['.', '.'] := by
    rintro rfl
    exact absurd hname (by decide)
  unfold publishPage
  refine (Keeps.look _).bind fun html => ?_
  refine (Keeps.ofExcept _).bind fun address => ?_
  refine Keeps.bind (Keeps.change fun d d' hwrite hd => ?_) fun _ => .pure _
  exact publishing_writeBytes hnamed hdots hd hwrite

/-- Publishing leaves no file in the place of a temporary directory. -/
theorem isFile_publish (hnamed : Named site) (base : BaseAddress) (w : Workspace)
    (htmp : w.disk.isFile site.tmpRoot ≠ .ok true) (hbundled : w.disk.isFile site.bundledRoot ≠ .ok true) :
    (outcome (publish site base) w).2.disk.isFile site.tmpRoot ≠ .ok true ∧
      (outcome (publish site base) w).2.disk.isFile site.bundledRoot ≠ .ok true := by
  unfold publish
  simp only
  rw [outcome_bind, outcome_ask]
  cases hdir : w.disk.isDirectory site.bundledRoot with
  | error e => exact ⟨htmp, hbundled⟩
  | ok there =>
    cases there with
    | false => exact ⟨htmp, hbundled⟩
    | true =>
      have hkeeps : Keeps (Publishing site) (Job.ask (·.list site.bundledRoot) >>= fun names =>
          (names.filter isPageName).mapM (publishPage site base)) := by
        refine (Keeps.ask _).bind fun names => Keeps.mapM fun name hname => ?_
        exact keeps_publishPage hnamed base (List.mem_filter.1 hname).2
      have hend := hkeeps w ⟨htmp, hdir⟩
      exact ⟨hend.tmp, Disk.isFile_ne_of_isDirectory hend.bundled⟩

/-! ## A build without its clean-up -/

/-- The variables of a build: those given, or those of their file. -/
def variablesOf (site : Site) (given : Option Variables) : Job Variables :=
  match given with
  | some tree => pure tree
  | none => Job.look (Variable.load site.variablesFile)

/-- The bundler of a build: the one given, or the one that the site names. -/
def bundlerOf (bundlers : Bundlers) (site : Site) (bundler : Option Bundler) : Job Bundler :=
  match bundler with
  | some b => pure b
  | none => Job.look (Reading.ofExcept id (bundlers.find site.bundler))

/-- What comes before the stages of a build: its variables, its bundler, and an empty output directory. -/
def prepare (bundlers : Bundlers) (site : Site) (given : Option Variables) (bundler : Option Bundler) :
    Job (Variables × Bundler) := do
  let tree ← variablesOf site given
  let b ← bundlerOf bundlers site bundler
  emptyOutput site
  return (tree, b)

/-- The stages of a build, which leave what they have made where they end. -/
def stages (site : Site) (tree : Variables) (bundler : Bundler) : Job Built := do
  let artifacts ← materializeSite site tree
  let outputs ← bundleAndPublish site bundler artifacts
  return ⟨artifacts.routes, outputs, bundler.name, site.baseUrl⟩

variable {bundlers : Bundlers} {given : Option Variables} {bundler : Option Bundler}

theorem disk_variablesOf (site : Site) (given : Option Variables) (w : Workspace) :
    (outcome (variablesOf site given) w).2.disk = w.disk := by
  cases given <;> rfl

theorem disk_bundlerOf (bundlers : Bundlers) (site : Site) (bundler : Option Bundler) (w : Workspace) :
    (outcome (bundlerOf bundlers site bundler) w).2.disk = w.disk := by
  cases bundler <;> rfl

theorem run_eq : run bundlers site given bundler = (do
    let tree ← variablesOf site given
    let b ← bundlerOf bundlers site bundler
    emptyOutput site
    runStages site tree b) := by
  cases given <;> cases bundler <;> rfl

theorem outcome_run (w : Workspace) :
    outcome (run bundlers site given bundler) w =
      match outcome (prepare bundlers site given bundler) w with
      | (.ok (tree, b), w₁) => outcome (runStages site tree b) w₁
      | (.error e, w₁) => (.error e, w₁) := by
  rw [run_eq, prepare, outcome_bind, outcome_bind]
  rcases outcome (variablesOf site given) w with ⟨_ | tree, w₁⟩
  · rfl
  · simp only
    rw [outcome_bind, outcome_bind]
    rcases outcome (bundlerOf bundlers site bundler) w₁ with ⟨_ | b, w₂⟩
    · rfl
    · simp only
      rw [outcome_bind, outcome_bind]
      rcases outcome (emptyOutput site) w₂ with ⟨_ | u, w₃⟩ <;> rfl

/-- A build that has been prepared has only emptied its output directory; one that could not be has changed
nothing. -/
theorem outcome_prepare (bundlers : Bundlers) (given : Option Variables) (bundler : Option Bundler)
    (hnamed : Named site) (w : Workspace) :
    match outcome (prepare bundlers site given bundler) w with
    | (.ok _, w₁) => ∃ w₀, w₀.disk = w.disk ∧ outcome (emptyOutput site) w₀ = (.ok (), w₁)
    | (.error _, w₁) => w₁.disk = w.disk := by
  have hread := disk_variablesOf site given w
  rw [prepare, outcome_bind]
  rcases hvariables : outcome (variablesOf site given) w with ⟨_ | tree, w₁⟩
  · rw [hvariables] at hread
    exact hread
  · rw [hvariables] at hread
    simp only
    have hfound := disk_bundlerOf bundlers site bundler w₁
    rw [outcome_bind]
    rcases hbundler : outcome (bundlerOf bundlers site bundler) w₁ with ⟨_ | b, w₂⟩
    · rw [hbundler] at hfound
      exact hfound.trans hread
    · rw [hbundler] at hfound
      simp only
      rw [outcome_bind]
      rcases hempty : outcome (emptyOutput site) w₂ with ⟨e | u, w₃⟩
      · rcases outcome_emptyOutput hnamed w₂ with ⟨e', h⟩ | ⟨h, _⟩ | ⟨loc, _, h⟩
        · rw [h] at hempty
          cases hempty
          exact hfound.trans hread
        · rw [h] at hempty
          cases hempty
        · rw [h] at hempty
          cases hempty
      · exact ⟨w₂, hfound.trans hread, hempty⟩

/-- A bundler is handed what has been materialised, and leaves no file in the place of a temporary
directory. -/
def LeavesNoFile (site : Site) (tree : Variables) (b : Bundler) (w : Workspace) : Prop :=
  ∀ artifacts w', outcome (materializeSite site tree) w = (.ok artifacts, w') →
    (outcome (b.bundle site artifacts) w').2.disk.isFile site.tmpRoot ≠ .ok true ∧
      (outcome (b.bundle site artifacts) w').2.disk.isFile site.bundledRoot ≠ .ok true

theorem Clear.isFile_bundledRoot (hnamed : Named site) (h : Clear site d) :
    site.outDir = site.tmpDir ∨ d.isFile site.bundledRoot ≠ .ok true := by
  rcases h.out with heq | hout
  · exact .inl heq
  · refine .inr fun hc => hout ?_
    rw [hnamed.bundledRoot_eq] at hc
    exact isFile_child hnamed.tmpName hc

theorem isFile_bundleAndPublish (hnamed : Named site) {b : Bundler} {artifacts : Artifacts} {w : Workspace}
    (h : (outcome (b.bundle site artifacts) w).2.disk.isFile site.tmpRoot ≠ .ok true ∧
      (outcome (b.bundle site artifacts) w).2.disk.isFile site.bundledRoot ≠ .ok true) :
    (outcome (bundleAndPublish site b artifacts) w).2.disk.isFile site.tmpRoot ≠ .ok true ∧
      (outcome (bundleAndPublish site b artifacts) w).2.disk.isFile site.bundledRoot ≠ .ok true := by
  unfold bundleAndPublish
  rw [outcome_bind]
  rcases hrun : outcome (b.bundle site artifacts) w with ⟨_ | bundled, w₁⟩
  · rw [hrun] at h
    exact h
  · rw [hrun] at h
    exact isFile_publish hnamed site.baseUrl w₁ h.1 h.2

/-- However the stages end, no file stands in the place of a temporary directory that is to be removed, and
what is removed then are the two temporary directories. -/
theorem outcome_runStages (hnamed : Named site) {tree : Variables} {b : Bundler} {w : Workspace}
    (hclear : Clear site w.disk) (hleaves : LeavesNoFile site tree b w) :
    let w' := (outcome (stages site tree b) w).2
    w'.disk.isFile site.tmpRoot ≠ .ok true ∧
      (site.outDir = site.tmpDir ∨ w'.disk.isFile site.bundledRoot ≠ .ok true) ∧
      ∃ artifacts : Option Artifacts, (∀ a ∈ artifacts, a.tmpRoots = [site.tmpRoot]) ∧
        outcome (runStages site tree b) w =
          match outcome (cleanUp site artifacts) w' with
          | (.ok (), v) => ((outcome (stages site tree b) w).1, v)
          | (.error e, v) => (.error e, v) := by
  obtain ⟨hclear', hroots⟩ := clear_materializeSite hnamed tree hclear
  unfold stages runStages
  rw [outcome_bind, outcome_bind, Job.outcome_attempt]
  rcases hmade : outcome (materializeSite site tree) w with ⟨e | artifacts, w₂⟩
  · rw [hmade] at hclear'
    refine ⟨hclear'.tmp, hclear'.isFile_bundledRoot hnamed, none, ?_, ?_⟩
    · intro a ha
      cases ha
    · simp only
      rw [outcome_bind]
      rcases outcome (cleanUp site none) w₂ with ⟨_ | u, v⟩ <;> rfl
  · obtain ⟨htmp, hbundled⟩ := isFile_bundleAndPublish hnamed (hleaves artifacts w₂ hmade)
    have hsome : ∀ a ∈ some artifacts, a.tmpRoots = [site.tmpRoot] := by
      intro a ha
      cases ha
      exact hroots artifacts w₂ hmade
    simp only
    rw [outcome_bind, outcome_bind, Job.outcome_andFinally]
    rcases hend : outcome (bundleAndPublish site b artifacts) w₂ with ⟨r, w₃⟩
    rw [hend] at htmp hbundled
    cases r with
    | error e =>
      refine ⟨htmp, .inr hbundled, some artifacts, hsome, ?_⟩
      simp only
      rcases outcome (cleanUp site (some artifacts)) w₃ with ⟨_ | u, v⟩ <;> rfl
    | ok outputs =>
      refine ⟨htmp, .inr hbundled, some artifacts, hsome, ?_⟩
      simp only [Job.outcome_pure]
      rcases outcome (cleanUp site (some artifacts)) w₃ with ⟨_ | u, v⟩ <;> rfl

/-! ## Names that are too long -/

theorem exists?_child_tooLong {p : Path} {name : Text} (hname : Path.PlainName name)
    (hlong : nameLimit < Utf8.size name) (h : d.isDirectory p = .ok true) :
    d.exists? (p.child name) = .error (.flaw .nameTooLong (p.child name).toText) := by
  obtain ⟨loc, hp⟩ := Disk.isDirectory_eq_true.1 h
  rw [Disk.exists?, Disk.look, Disk.place_child_of_directory hname hp, if_pos hlong]
  rfl

theorem exists?_child_of_not_directory {p : Path} {name : Text} (hname : Path.PlainName name)
    (hshort : p.Short) (h : d.isDirectory p ≠ .ok true) : d.exists? (p.child name) = .ok false := by
  have hplace := Disk.place_child (d := d) (p := p) hname.not_dots hname.noNul
  rw [Disk.exists?_eq_false, Disk.look, hplace]
  rcases hp : d.place p with (⟨flaw, path⟩ | _) | ⟨loc, _ | ⟨bytes, stamp⟩⟩ | loc
  · cases flaw <;> first | rfl | exact absurd hshort (Disk.place_nameTooLong hp)
  · rfl
  · exact absurd (Disk.isDirectory_eq_true.2 ⟨loc, hp⟩) h
  · rfl
  · rfl

/-- A clean-up fails where the name of the temporary directory is too long. -/
theorem cleanUp_tooLong (hnamed : Named site) {artifacts : Option Artifacts}
    (hroots : ∀ a ∈ artifacts, a.tmpRoots = [site.tmpRoot]) (hout : site.outRoot.Short)
    (hlong : nameLimit < Utf8.size site.tmpDir) {w : Workspace}
    (hroot : w.disk.isDirectory site.root = .ok true) :
    ∃ path ∈ [site.bundledRoot, site.tmpRoot],
      outcome (cleanUp site artifacts) w = (.error (.file (.flaw .nameTooLong path.toText)), w) := by
  have htmp : w.disk.exists? site.tmpRoot = .error (.flaw .nameTooLong site.tmpRoot.toText) := by
    rw [hnamed.tmpRoot_eq]
    exact exists?_child_tooLong hnamed.tmpName hlong hroot
  rw [outcome_cleanUp hroots, outcome_bind]
  by_cases hdir : w.disk.isDirectory site.outRoot = .ok true
  · have hbundled : w.disk.exists? site.bundledRoot =
        .error (.flaw .nameTooLong site.bundledRoot.toText) := by
      rw [hnamed.bundledRoot_eq]
      exact exists?_child_tooLong hnamed.tmpName hlong hdir
    refine ⟨site.bundledRoot, List.mem_cons_self, ?_⟩
    rw [discard, outcome_bind, outcome_ask, hbundled]
    rfl
  · have hbundled : w.disk.exists? site.bundledRoot = .ok false := by
      rw [hnamed.bundledRoot_eq]
      exact exists?_child_of_not_directory hnamed.tmpName hout hdir
    refine ⟨site.tmpRoot, List.mem_cons_of_mem _ (List.mem_singleton_self _), ?_⟩
    rw [discard, outcome_bind, outcome_ask, hbundled]
    simp only [Except.mapError, Bool.false_eq_true, if_false, Job.outcome_pure]
    rw [discard, outcome_bind, outcome_ask, htmp]
    rfl

theorem short_outRoot (h : Project site d) {w w' : Workspace} (hdisk : w.disk = d)
    (hrun : outcome (emptyOutput site) w = (.ok (), w')) : site.outRoot.Short := by
  rcases outcome_emptyOutput h.toNamed w with ⟨e, hempty⟩ | ⟨_, hgone⟩ | ⟨loc, hplace, _⟩
  · rw [hempty] at hrun
    cases hrun
  · by_cases hlong : nameLimit < Utf8.size site.outDir
    · have hexists := exists?_child_tooLong h.outName hlong h.standing
      rw [hdisk, h.outRoot_eq, hexists] at hgone
      cases hgone
    · obtain ⟨loc, hroot⟩ := Disk.isDirectory_eq_true.1 h.standing
      rw [h.outRoot_eq]
      exact short_child (Disk.short_of_place hroot) (by omega)
  · exact Disk.short_of_place hplace

/-- A build that cannot be prepared changes no file. Each other one, whatever its bundler does and however
its stages end, ends as these do and leaves neither temporary directory, if the name of the temporary
directory is one that the file system takes. If that name is too long, every build fails for that reason
when it cleans up. -/
theorem run_leaves_no_pages (bundlers : Bundlers) (site : Site) (given : Option Variables)
    (bundler : Option Bundler) (w : Workspace) (hproject : Project site w.disk)
    (hfile : w.disk.isFile site.tmpRoot ≠ .ok true) :
    (∀ e w₁, outcome (prepare bundlers site given bundler) w = (.error e, w₁) →
      ∃ w', outcome (run bundlers site given bundler) w = (.error e, w') ∧ w'.disk = w.disk) ∧
    ∀ tree b w₁, outcome (prepare bundlers site given bundler) w = (.ok (tree, b), w₁) →
      LeavesNoFile site tree b w₁ →
      (Utf8.size site.tmpDir ≤ nameLimit →
        ∃ w', outcome (run bundlers site given bundler) w = ((outcome (stages site tree b) w₁).1, w') ∧
          w'.disk.exists? site.tmpRoot = .ok false ∧ w'.disk.exists? site.bundledRoot = .ok false) ∧
      (nameLimit < Utf8.size site.tmpDir →
        (outcome (stages site tree b) w₁).2.disk.isDirectory site.root = .ok true →
        ∃ path ∈ [site.bundledRoot, site.tmpRoot], (outcome (run bundlers site given bundler) w).1 =
          .error (.file (.flaw .nameTooLong path.toText))) := by
  have hprepare := outcome_prepare bundlers given bundler hproject.toNamed w
  constructor
  · intro e w₁ h
    rw [h] at hprepare
    rw [outcome_run, h]
    exact ⟨w₁, rfl, hprepare⟩
  · intro tree b w₁ h hleaves
    rw [h] at hprepare
    obtain ⟨w₀, hdisk, hempty⟩ := hprepare
    have hclear : Clear site w₁.disk :=
      Project.clear_of_emptyOutput (hdisk ▸ hproject) (hdisk ▸ hfile) hempty
    have hout : site.outRoot.Short := short_outRoot hproject hdisk hempty
    obtain ⟨htmp, hbundled, artifacts, hroots, hrun⟩ :=
      outcome_runStages hproject.toNamed hclear hleaves
    rw [outcome_run, h]
    simp only [hrun]
    constructor
    · intro hsize
      have htmpShort : site.tmpRoot.Short := by
        obtain ⟨loc, hroot⟩ := Disk.isDirectory_eq_true.1 hproject.standing
        rw [hproject.tmpRoot_eq]
        exact short_child (Disk.short_of_place hroot) hsize
      have hbundledShort : site.bundledRoot.Short := by
        rw [hproject.bundledRoot_eq]
        exact short_child hout hsize
      obtain ⟨w', hclean, hgone⟩ :=
        cleanUp_ok hproject.toNamed hroots htmpShort hbundledShort htmp hbundled
      rw [hclean]
      exact ⟨w', rfl, hgone⟩
    · intro hlong hroot
      obtain ⟨path, hpath, hclean⟩ := cleanUp_tooLong hproject.toNamed hroots hout hlong hroot
      rw [hclean]
      exact ⟨path, hpath, rfl⟩

/-! ## Two builds of an empty project -/

theorem outcome_prepare_given {w w' : Workspace} (tree : Variables) (b : Bundler)
    (h : outcome (emptyOutput site) w = (.ok (), w')) :
    outcome (prepare bundlers site (some tree) (some b)) w = (.ok (tree, b), w') := by
  show outcome (emptyOutput site >>= fun _ => pure (tree, b)) w = _
  rw [outcome_bind, h]
  rfl

def emptyProject : Workspace :=
  ⟨{ tree := [([], .directory), (["project".toList], .directory)], here := [], clock := 0 }, []⟩

def emptyNotices : Log :=
  [⟨.warning, "Pages root /project/src/app does not exist".toList⟩,
    ⟨.warning, "No pages found under /project/src/app".toList⟩]

def emptySite : Site := .usual (.ofLocation ["project".toList])

def crashing : Bundler where
  name := "crashing".toList
  bundle := fun site _ => do
    Job.changeBySteps (·.ensureDirectories site.bundledRoot)
    Job.writeText (pageFile site.bundledRoot "index".toList) "partial".toList
    throw (.commandFailed 1 "bundler crashed".toList)

theorem project_empty : Project emptySite emptyProject.disk where
  absolute := rfl
  straight := by decide
  standing := by cbv
  tmpName := by constructor <;> decide
  outName := by constructor <;> decide

theorem materializeSite_empty : outcome (materializeSite emptySite []) emptyProject =
    (.ok ⟨[], [], [emptySite.tmpRoot]⟩, ⟨emptyProject.disk, emptyNotices⟩) := by
  cbv

theorem leavesNoFile_crashing : LeavesNoFile emptySite [] crashing emptyProject := by
  intro artifacts w' h
  rw [materializeSite_empty] at h
  cases h
  constructor
  · have htmp : (outcome (crashing.bundle emptySite ⟨[], [], [emptySite.tmpRoot]⟩)
        ⟨emptyProject.disk, emptyNotices⟩).2.disk.isFile emptySite.tmpRoot = .ok false := by cbv
    rw [htmp]
    intro hc
    cases hc
  · have hbundled : (outcome (crashing.bundle emptySite ⟨[], [], [emptySite.tmpRoot]⟩)
        ⟨emptyProject.disk, emptyNotices⟩).2.disk.isFile emptySite.bundledRoot = .ok false := by cbv
    rw [hbundled]
    intro hc
    cases hc

/-- What a crashing bundler has written is removed, and its failure is the failure of the build. -/
theorem run_leaves_no_pages_crashing :
    ∃ w', outcome (run [] emptySite (some []) (some crashing)) emptyProject =
        (.error (.commandFailed 1 "bundler crashed".toList), w') ∧
      w'.disk.exists? emptySite.tmpRoot = .ok false ∧
      w'.disk.exists? emptySite.bundledRoot = .ok false := by
  have hfile : emptyProject.disk.isFile emptySite.tmpRoot ≠ .ok true := by
    have htmp : emptyProject.disk.isFile emptySite.tmpRoot = .ok false := by cbv
    rw [htmp]
    intro hc
    cases hc
  have hempty : outcome (emptyOutput emptySite) emptyProject = (.ok (), emptyProject) := by cbv
  have hstages : (outcome (stages emptySite [] crashing) emptyProject).1 =
      .error (.commandFailed 1 "bundler crashed".toList) := by cbv
  have h := (run_leaves_no_pages [] emptySite (some []) (some crashing) emptyProject project_empty hfile).2
    [] crashing emptyProject (outcome_prepare_given [] crashing hempty) leavesNoFile_crashing
  rw [hstages] at h
  exact h.1 (by decide)

/-- The site of an empty project with a temporary directory whose name is too long. -/
def longSite : Site := { emptySite with tmpDir := List.replicate 300 'a' }

def failing : Bundler := ⟨"failing".toList, fun _ _ => throw (.commandFailed 3 [])⟩

set_option maxRecDepth 4000 in
/-- Where the name of the temporary directory is too long, the failure of the bundler is lost. -/
theorem run_loses_failure_of_bundler :
    Project longSite emptyProject.disk ∧ emptyProject.disk.isFile longSite.tmpRoot ≠ .ok true ∧
      outcome (prepare [] longSite (some []) (some failing)) emptyProject = (.ok ([], failing), emptyProject) ∧
      LeavesNoFile longSite [] failing emptyProject ∧
      (outcome (stages longSite [] failing) emptyProject).1 = .error (.commandFailed 3 []) ∧
      (outcome (run [] longSite (some []) (some failing)) emptyProject).1 =
        .error (.file (.flaw .nameTooLong longSite.tmpRoot.toText)) := by
  have hfile : emptyProject.disk.isFile longSite.tmpRoot =
      .error (.flaw .nameTooLong longSite.tmpRoot.toText) := by cbv
  have hbundled : emptyProject.disk.isFile longSite.bundledRoot = .ok false := by cbv
  have hempty : outcome (emptyOutput longSite) emptyProject = (.ok (), emptyProject) := by cbv
  have hmade : outcome (materializeSite longSite []) emptyProject =
      (.ok ⟨[], [], [longSite.tmpRoot]⟩, ⟨emptyProject.disk, emptyNotices⟩) := by cbv
  refine ⟨?_, ?_, outcome_prepare_given [] failing hempty, ?_, by cbv, by cbv⟩
  · refine { absolute := rfl, straight := by decide, standing := by cbv, tmpName := ?_, outName := ?_ }
    · constructor <;> simp [longSite]
    · exact project_empty.outName
  · rw [hfile]
    intro hc
    cases hc
  · intro artifacts w' h
    rw [hmade] at h
    cases h
    constructor
    · show emptyProject.disk.isFile longSite.tmpRoot ≠ .ok true
      rw [hfile]
      intro hc
      cases hc
    · show emptyProject.disk.isFile longSite.bundledRoot ≠ .ok true
      rw [hbundled]
      intro hc
      cases hc

end Sitewright.Build
