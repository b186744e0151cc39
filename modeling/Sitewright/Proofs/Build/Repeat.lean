import Sitewright.Proofs.Build.Sources
import Sitewright.Proofs.Build.Survival
import Sitewright.Proofs.Course
/-!
# Builds that are repeated

A build that succeeds leaves a project at rest: its temporary directory is gone, its output directory is a
directory, and its sources are the same but for the script entries. So a second build ends as the first one did.

* `Tidy`: what holds of the temporary directory throughout a build.

Main statements: `atRest_run`, `sameSources_run`, and `run_repeatable`.
-/
set_option autoImplicit false

namespace Sitewright.Build

open FileTree (entryAt contentAt kindAt)
open Disk (Changes Ground Alike Retains spares_nowhere)
open Job (outcome Keeps Couples)

variable {site : Site} {home loc : Location} {d d' : Disk} {T S : Location → Prop}

/-! ## The temporary directory -/

theorem not_beneath_of_ne {name other : Text} (hne : name ≠ other) {l : Location} (h : home ++ [name] <+: l) :
    ¬ Beneath home [other] l := by
  rintro ⟨third, hthird, hbelow⟩
  rw [List.mem_singleton.1 hthird] at hbelow
  have hlen : (home ++ [name]).length = (home ++ [other]).length := by simp
  have hsame := (List.prefix_of_prefix_length_le h hbelow (Nat.le_of_eq hlen)).eq_of_length hlen
  exact hne (List.singleton_inj.1 (List.append_cancel_left hsame))

theorem Reserved.of_changes (h : Reserved loc d) (hd : Changes T S d d') (hT : ∀ l, loc <+: l → ¬ T l)
    (hS : ∀ l, loc <+: l → ¬ S l) : Reserved loc d' := by
  have hentry : ∀ l, loc <+: l → entryAt l d'.tree = entryAt l d.tree := fun l hl => hd.entry l (hT l hl) (hS l hl)
  rcases h with hclear | hdir
  · exact .inl fun l hl => (hentry l hl).trans (hclear l hl)
  · exact .inr ((hentry loc (List.prefix_refl _)).trans hdir)

/-- A disk to build on, with nothing but a directory in the place of the temporary directory. -/
structure Tidy (site : Site) (home : Location) (d : Disk) : Prop where
  ground : Ground home d
  tmp : Reserved (home ++ [site.tmpDir]) d

namespace Usual

theorem plain_tmpDir (h : Usual site home) : Path.PlainName site.tmpDir := by
  rw [h.tmpDir]
  decide

theorem plain_outDir (h : Usual site home) : Path.PlainName site.outDir := by
  rw [h.outDir]
  decide

theorem size_tmpDir (h : Usual site home) : ¬ Utf8.size site.tmpDir > FileTree.nameLimit := by
  rw [h.tmpDir]
  decide

theorem tmpDir_ne_outDir (h : Usual site home) : site.tmpDir ≠ site.outDir := by
  rw [h.tmpDir, h.outDir]
  decide

theorem bundledRoot_eq (h : Usual site home) :
    site.bundledRoot = .ofLocation (home ++ [site.outDir] ++ [site.tmpDir]) := by
  rw [Site.bundledRoot, h.plain_tmpDir.join_eq, h.placed.outRoot_eq]
  rfl

end Usual

theorem lasting_tidy (hsite : Usual site home) : Lasting site home (Tidy site home) where
  ground _ h := h.ground
  output _ _ hchange h := ⟨h.ground.step hchange,
    h.tmp.of_changes hchange (fun _ hl => not_beneath_of_ne hsite.tmpDir_ne_outDir hl) fun _ _ => id⟩

theorem Tidy.place (hsite : Usual site home) (h : Tidy site home d) :
    Cleared (home ++ [site.tmpDir]) d ∧ d.place site.tmpRoot = .ok (.vacant (home ++ [site.tmpDir])) ∨
      entryAt (home ++ [site.tmpDir]) d.tree = some .directory ∧
        d.place site.tmpRoot = .ok (.entry (home ++ [site.tmpDir]) .directory) := by
  have hplace := Disk.place_in_directory hsite.plain_tmpDir h.ground.plain h.ground.standing hsite.size_tmpDir
  rw [hsite.placed.tmpRoot_eq]
  rcases h.tmp with hclear | hdir
  · rw [hclear _ (List.prefix_refl _)] at hplace
    exact .inl ⟨hclear, hplace⟩
  · rw [hdir] at hplace
    exact .inr ⟨hdir, hplace⟩

theorem Usual.straight_tmpRoot (hsite : Usual site home) (hhome : PlainNames home) : site.tmpRoot.Straight := by
  rw [hsite.placed.tmpRoot_eq]
  exact (hhome.child hsite.plain_tmpDir).straight

theorem keeps_tidy_make (hsite : Usual site home) :
    Keeps (Tidy site home) (Job.changeBySteps (·.ensureDirectories site.tmpRoot)) := by
  refine Keeps.changeBySteps fun d h => ?_
  have hchange := Disk.changes_ensureDirectories_beneath (S := Nowhere) h.ground hsite.placed.tmpRoot
  refine ⟨h.ground.step hchange, ?_⟩
  have hhome := Disk.place_of_isDirectory h.ground.plain h.ground.standing
  rw [hsite.placed.tmpRoot_eq]
  rcases Disk.ensureDirectories_child hsite.plain_tmpDir hhome with ⟨-, hmade⟩ | ⟨-, hmade⟩ | ⟨e, hmade⟩
  · rw [hmade]
    exact .inr (FileTree.entryAt_put_self _ _ d.tree)
  · rw [hmade]
    exact h.tmp
  · rw [hmade]
    exact h.tmp

/-- A file is written into the temporary directory only if that is there. -/
theorem keeps_tidy_document (hsite : Usual site home) {route : Text} (hroute : Path.FileName route) (s : Text) :
    Keeps (Tidy site home) (Job.writeText (pageFile site.tmpRoot route) s) := by
  refine Keeps.change fun d d' hwrite h => ?_
  have hleads := Placed.pageFile hsite.placed.tmpRoot hroute
  have hchange := Disk.changes_writeBytes_beneath (S := Nowhere) h.ground.plain hleads hwrite
  refine ⟨h.ground.step hchange, ?_⟩
  rcases h.place hsite with ⟨-, hvacant⟩ | ⟨hdir, -⟩
  · have hname : Path.FileName (route ++ ".html".toList) := hroute.append (by decide) (by decide)
    have hnul : '\x00' ∉ route ++ ".html".toList := by
      intro hc
      have hpath : (pageFile site.tmpRoot route).hasNul = true := by
        rw [pageFile, hname.join_eq, Path.hasNul_child, List.elem_iff.2 hc, Bool.or_true]
      rw [Disk.writeBytes_of_hasNul hpath] at hwrite
      cases hwrite
    obtain ⟨l, -, hplace⟩ := Disk.writeBytes_eq_store hwrite
    rw [pageFile, hname.join_eq] at hplace
    have hparent : d.isDirectory site.tmpRoot = .ok true := by
      rcases hplace with hp | ⟨bytes, stamp, hp⟩ <;>
        exact Disk.isDirectory_of_place_child hname.not_dots hnul hp
    obtain ⟨l', hp⟩ := Disk.isDirectory_eq_true.1 hparent
    rw [hvacant] at hp
    cases hp
  · exact .inr ((Disk.retains_writeBytes (T := Nowhere) hwrite).directory _ id hdir)

theorem keeps_tidy_remove (hsite : Usual site home) :
    Keeps (Tidy site home) (Job.changeBySteps (·.removeTree site.tmpRoot)) := by
  refine Keeps.changeBySteps fun d h => ?_
  have hchange := Disk.changes_removeTree_beneath (d := d) (S := Nowhere) h.ground.plain hsite.placed.tmpRoot
  refine ⟨h.ground.step hchange, ?_⟩
  rcases h.place hsite with ⟨hclear, hplace⟩ | ⟨-, hplace⟩
  · rw [Disk.removeTree, hplace]
    exact .inl hclear
  · rw [Disk.removeTree_directory (hsite.straight_tmpRoot h.ground.plain) hplace]
    exact .inl (cleared_pruned _ d)

theorem steps_tidy (hsite : Usual site home) {routes : List Text} (hroutes : ∀ route ∈ routes, Path.FileName route) :
    Steps site routes (Disk.Twin (Tidy site home)) :=
  (lasting_tidy hsite).steps hsite.placed (keeps_tidy_remove hsite) hroutes

theorem writesPage_tidy (hsite : Usual site home) {w : Workspace} (hground : Ground home w.disk) {item : Text × Page}
    (hitem : item ∈ pagesFound site w) : WritesPage site (Tidy site home) item.2 := by
  obtain ⟨-, hfound⟩ := mem_pagesFound hitem
  refine ⟨fun path hpath s => Keeps.change fun d d' hwrite h => ?_, fun s => ?_⟩
  · obtain ⟨rfl, hplain, -⟩ := script_of_found hsite hground hfound hpath
    have hchange : Changes (Beneath home [site.outDir]) (· = scriptOf site home item.2) d d' :=
      Disk.changes_writeBytes_resolve (by simp [Path.ofLocation]) (spelt_ofLocation hplain)
        (Path.resolve_plain hplain) hwrite
    refine ⟨h.ground.step hchange, h.tmp.of_changes hchange
      (fun _ hl => not_beneath_of_ne hsite.tmpDir_ne_outDir hl) ?_⟩
    rintro l hl rfl
    have hspared := hsite.spares_outputs [item.2.name, site.pageScript] (scriptOf site home item.2)
    refine hspared ?_ ⟨site.tmpDir, by simp [outputNames], hl⟩
    simp [scriptOf]
  · exact keeps_tidy_document hsite (fileName_route hsite.placed hground.sound hfound) s

theorem cleared_discard (hsite : Usual site home) {w : Workspace} (h : Tidy site home w.disk) :
    Cleared (home ++ [site.tmpDir]) (outcome (discard site.tmpRoot) w).2.disk := by
  rcases h.place hsite with ⟨hclear, hplace⟩ | ⟨-, hplace⟩
  · have hexists : w.disk.exists? site.tmpRoot = .ok false := by
      rw [Disk.exists?, Disk.look_of_vacant hplace]
      rfl
    rw [outcome_discard_nothing hexists]
    exact hclear
  · rw [outcome_discard_directory (hsite.straight_tmpRoot h.ground.plain) hplace]
    exact cleared_pruned _ w.disk

/-! ## What a build leaves -/

/-- Stages that succeed have materialised the pages, have bundled and published them, and have cleaned up. -/
theorem exists_of_runStages_ok {tree : Variables} {built : Built} {w w' : Workspace}
    (h : outcome (runStages site tree copyBundler) w = (.ok built, w')) :
    ∃ made w₁ outputs w₂, outcome (materializeSite site tree) w = (.ok made, w₁) ∧
      outcome (bundleAndPublish site copyBundler made) w₁ = (.ok outputs, w₂) ∧
      outcome (cleanUp site (some made)) w₂ = (.ok (), w') ∧
      built = ⟨made.routes, outputs, copyBundler.name, site.baseUrl⟩ := by
  unfold runStages at h
  rw [Job.outcome_bind, Job.outcome_attempt] at h
  rcases hmade : outcome (materializeSite site tree) w with ⟨e | made, w₁⟩
  · rw [hmade] at h
    obtain ⟨u, v, -, hthrow⟩ := Job.exists_of_bind_ok h
    cases hthrow
  · rw [hmade] at h
    obtain ⟨outputs, v, hfinally, hend⟩ := Job.exists_of_bind_ok h
    cases hend
    rw [Job.outcome_andFinally] at hfinally
    rcases hbundled : outcome (bundleAndPublish site copyBundler made) w₁ with ⟨r, w₂⟩
    rw [hbundled] at hfinally
    simp only at hfinally
    rcases hclean : outcome (cleanUp site (some made)) w₂ with ⟨e | u, v'⟩
    · rw [hclean] at hfinally
      cases hfinally
    · rw [hclean] at hfinally
      cases hfinally
      exact ⟨made, w₁, outputs, w₂, rfl, hbundled, hclean, rfl⟩

/-- Stages that succeed one after the other succeed together. -/
theorem outcome_runStages_ok {tree : Variables} {made : Artifacts} {b : Bundled} {outputs : List Path}
    {w w₁ w₂ w₃ w' : Workspace} (hmade : outcome (materializeSite site tree) w = (.ok made, w₁))
    (hbundled : outcome (bundleByCopying site made) w₁ = (.ok b, w₂))
    (hpublished : outcome (publish site site.baseUrl) w₂ = (.ok outputs, w₃))
    (hcleaned : outcome (cleanUp site (some made)) w₃ = (.ok (), w')) :
    outcome (runStages site tree copyBundler) w =
      (.ok ⟨made.routes, outputs, copyBundler.name, site.baseUrl⟩, w') := by
  have hboth : outcome (bundleAndPublish site copyBundler made) w₁ = (.ok outputs, w₃) := by
    have hbundle : outcome (copyBundler.bundle site made) w₁ = (.ok b, w₂) := hbundled
    unfold bundleAndPublish
    rw [Job.outcome_bind, hbundle]
    exact hpublished
  unfold runStages
  rw [Job.outcome_bind, Job.outcome_attempt, hmade]
  simp only
  rw [Job.outcome_bind, Job.outcome_andFinally, hboth]
  simp only
  rw [hcleaned]
  rfl

theorem not_above_outRoot (hsite : Usual site home) (hhome : PlainNames home) (here : Location) :
    ∀ p ∈ [site.bundledRoot, site.tmpRoot], ¬ p.resolve here <+: home ++ [site.outDir] := by
  intro p hp hc
  rcases List.mem_pair.1 hp with rfl | rfl
  · rw [hsite.bundledRoot_eq, Path.resolve_plain ((hhome.child hsite.plain_outDir).child hsite.plain_tmpDir)] at hc
    have hlen := hc.length_le
    simp at hlen
  · have htmp : site.tmpRoot = .ofLocation (home ++ [site.tmpDir]) := hsite.placed.tmpRoot_eq
    rw [htmp, Path.resolve_plain (hhome.child hsite.plain_tmpDir)] at hc
    exact not_beneath_of_ne hsite.tmpDir_ne_outDir hc ⟨site.outDir, List.mem_singleton_self _, List.prefix_refl _⟩

/-- Once pages have been bundled, the output directory is there. -/
theorem outRoot_of_bundleAndPublish (hsite : Usual site home) (hhome : PlainNames home) {made : Artifacts}
    {outputs : List Path} {w w' : Workspace}
    (h : outcome (bundleAndPublish site copyBundler made) w = (.ok outputs, w')) :
    entryAt (home ++ [site.outDir]) w'.disk.tree = some .directory := by
  have hloc : PlainNames (home ++ [site.outDir]) := hhome.child hsite.plain_outDir
  obtain ⟨bundled, w₂, hbundle, hpublish⟩ := Job.exists_of_bind_ok h
  have hsplit : copyBundler.bundle site made =
      Job.changeBySteps (·.ensureDirectories (assetsRoot site)) >>= fun _ => fillOutput site made := rfl
  rw [hsplit] at hbundle
  obtain ⟨u, w₁, hmake, hfill⟩ := Job.exists_of_bind_ok hbundle
  have hassets : Path.PlainName "assets".toList := by decide
  have hstart : entryAt (home ++ [site.outDir]) w₁.disk.tree = some .directory := by
    rw [hsite.placed.assetsRoot_eq] at hmake
    exact Disk.entryAt_of_isDirectory hloc
      (Disk.isDirectory_of_ensureDirectories hloc hassets (Job.of_changeBySteps_ok hmake))
  have hsteps : Steps site made.routes (Disk.Twin (Stands (home ++ [site.outDir]) w₁.disk)) :=
    steps_stands (not_above_outRoot hsite hhome w₁.disk.here)
  have hfilled : Stands (home ++ [site.outDir]) w₁.disk w₂.disk := by
    have hkept := hsteps.fillOutput.keeps w₁ (Retains.refl _ w₁.disk)
    rw [hfill] at hkept
    exact hkept
  have hend : Stands (home ++ [site.outDir]) w₁.disk w'.disk := by
    have hkept := (hsteps.publishAll site.baseUrl).keeps w₂ hfilled
    rw [hpublish] at hkept
    exact hkept
  exact hend.directory _ (not_not_intro (List.prefix_refl _)) hstart

/-- Stages that succeed leave the output directory, and nothing of the temporary one. -/
theorem runStages_leaves (hsite : Usual site home) {tree : Variables} {built : Built} {w w' : Workspace}
    (htidy : Tidy site home w.disk) (h : outcome (runStages site tree copyBundler) w = (.ok built, w')) :
    Cleared (home ++ [site.tmpDir]) w'.disk ∧ entryAt (home ++ [site.outDir]) w'.disk.tree = some .directory := by
  obtain ⟨made, w₁, outputs, w₂, hmade, hbundled, hclean, -⟩ := exists_of_runStages_ok h
  obtain ⟨hroots, hsub⟩ := routes_materializeSite hmade
  have hroutes : ∀ route ∈ made.routes, Path.FileName route := fun route hroute =>
    fileName_routes hsite.placed htidy.ground.sound route (hsub route hroute)
  -- each stage leaves the disk tidy, up to the removal of the temporary directory
  have htidy₁ : Tidy site home w₁.disk := by
    have hkept := disk_materializeSite tree htidy (keeps_tidy_make hsite)
      fun item hitem => writesPage_tidy hsite htidy.ground hitem
    rw [hmade] at hkept
    exact hkept
  have htidy₂ : Tidy site home w₂.disk := by
    have hkept := (steps_tidy hsite hroutes).bundleAndPublish.keeps w₁ htidy₁
    rw [hbundled] at hkept
    exact hkept
  have hsome : ∀ a ∈ some made, a.tmpRoots = [site.tmpRoot] := by
    intro a ha
    cases ha
    exact hroots
  have hplain := htidy.ground.plain
  constructor
  · rw [outcome_cleanUp hsome] at hclean
    obtain ⟨u, w₃, hbundledRoot, htmpRoot⟩ := Job.exists_of_bind_ok hclean
    have htidy₃ : Tidy site home w₃.disk := by
      have hkept := ((steps_tidy hsite hroutes).discard (by simp : site.bundledRoot ∈ _)).keeps w₂ htidy₂
      rw [hbundledRoot] at hkept
      exact hkept
    have hcleared := cleared_discard hsite htidy₃
    rw [htmpRoot] at hcleared
    exact hcleared
  · have hsteps : Steps site made.routes (Disk.Twin (Stands (home ++ [site.outDir]) w₂.disk)) :=
      steps_stands (not_above_outRoot hsite hplain w₂.disk.here)
    have hkept := (hsteps.cleanUp hsome).keeps w₂ (Retains.refl _ w₂.disk)
    rw [hclean] at hkept
    have hthere := outRoot_of_bundleAndPublish hsite hplain hbundled
    exact hkept.directory _ (not_not_intro (List.prefix_refl _)) hthere

variable {bundlers : Bundlers} {bundler : Option Bundler} {tree : Variables} {built : Built} {l : Log} {w' : Workspace}

theorem touches_run_atRest (hsite : Usual site home) (hcopy : Selects bundlers site bundler copyBundler)
    (hrest : AtRest site home d) (tree : Variables) (l : Log) :
    Touches site home (ScriptEntry site ⟨d, l⟩) d
      (outcome (run bundlers site (some tree) bundler) ⟨d, l⟩).2.disk := by
  obtain ⟨d₁, hempty, hchange, -⟩ := outcome_emptyOutput_reserved hsite hrest.ground hrest.out l
  have htouches := touches_run bundlers (some tree) bundler ⟨d, l⟩ hsite.placed hrest.ground hcopy
  rw [outcome_prepare_selected hcopy hempty] at htouches
  refine htouches.mono (fun _ hl => hl) fun loc hloc => .inr ?_
  obtain ⟨item, hitem, path, hpath, hresolve⟩ := hloc
  rw [pagesFound_changes hsite hrest.ground hchange] at hitem
  rw [hchange.here] at hresolve
  exact ⟨item, hitem, path, hpath, hresolve⟩

/-- A build that succeeds leaves a project at rest. -/
theorem atRest_run (hsite : Usual site home) (hcopy : Selects bundlers site bundler copyBundler)
    (hrest : AtRest site home d) (h : outcome (run bundlers site (some tree) bundler) ⟨d, l⟩ = (.ok built, w')) :
    AtRest site home w'.disk := by
  obtain ⟨d₁, hempty, hchange, -⟩ := outcome_emptyOutput_reserved hsite hrest.ground hrest.out l
  have htouches := touches_run_atRest hsite hcopy hrest tree l
  rw [h] at htouches
  have htidy : Tidy site home d₁ := (lasting_tidy hsite).output d d₁ hchange ⟨hrest.ground, .inl hrest.tmp⟩
  rw [outcome_run, outcome_prepare_selected hcopy hempty] at h
  obtain ⟨hclear, hdir⟩ := runStages_leaves hsite htidy h
  exact ⟨htouches.ground hrest.ground, hclear, .inr hdir⟩

/-- A build that succeeds leaves the sources of its project. -/
theorem sameSources_run (hsite : Usual site home) (hcopy : Selects bundlers site bundler copyBundler)
    (hrest : AtRest site home d) (h : outcome (run bundlers site (some tree) bundler) ⟨d, l⟩ = (.ok built, w')) :
    SameSources site home ⟨d, l⟩ w'.disk := by
  have htouches := touches_run_atRest hsite hcopy hrest tree l
  have hend := atRest_run hsite hcopy hrest h
  rw [h] at htouches
  have houtside : ∀ loc, ¬ home ++ [site.outDir] <+: loc → ¬ home ++ [site.tmpDir] <+: loc →
      ¬ Beneath home (outputNames site) loc := by
    rintro loc hout htmp ⟨name, hname, hbelow⟩
    rcases List.mem_pair.1 hname with rfl | rfl
    · exact hout hbelow
    · exact htmp hbelow
  refine ⟨htouches.here, fun loc hout => ?_, fun loc hout hscript => ?_⟩
  · by_cases htmp : home ++ [site.tmpDir] <+: loc
    · rw [FileTree.kindAt_eq_none.2 (hrest.tmp loc htmp), FileTree.kindAt_eq_none.2 (hend.tmp loc htmp)]
    · by_cases hscript : ScriptEntry site ⟨d, l⟩ loc
      · obtain ⟨item, hitem, path, hpath, rfl⟩ := hscript
        obtain ⟨rfl, hplain, hfile⟩ := script_of_found hsite hrest.ground (mem_pagesFound hitem).2 hpath
        rw [Path.resolve_plain hplain] at hout htmp ⊢
        obtain ⟨loc', bytes, stamp, hp⟩ := Disk.place_of_isFile hfile
        have hloc' : loc' = scriptOf site home item.2 := Disk.location_ofLocation hplain hp
        have hholds : Disk.HoldsFile d (scriptOf site home item.2) := ⟨bytes, stamp, hloc' ▸ Disk.place_file hp⟩
        rw [FileTree.kindAt_eq_file.2 hholds, FileTree.kindAt_eq_file.2 (htouches.file _ (houtside _ hout htmp) hholds)]
      · rw [kindAt, kindAt, contentAt, contentAt, htouches.entry loc (houtside loc hout htmp) hscript]
  · by_cases htmp : home ++ [site.tmpDir] <+: loc
    · rw [contentAt, contentAt, hrest.tmp loc htmp, hend.tmp loc htmp]
    · rw [contentAt, contentAt, htouches.entry loc (houtside loc hout htmp) hscript]

/-- Builds of two projects at rest with the same sources either both fail, in the same way, or give the same
results and leave the same file trees. A build that succeeds and is repeated changes nothing more. -/
theorem run_repeatable (bundlers : Bundlers) (site : Site) (home : Location) (bundler : Option Bundler)
    (tree : Variables) (l : Log) (d d' : Disk) (hsite : Usual site home)
    (hcopy : Selects bundlers site bundler copyBundler) (hrest : AtRest site home d) (hrest' : AtRest site home d')
    (hsame : SameSources site home ⟨d, l⟩ d') :
    let build (disk : Disk) := outcome (run bundlers site (some tree) bundler) ⟨disk, l⟩
    (build d').1 = (build d).1 ∧
      ∀ built, (build d).1 = .ok built →
        (∀ loc, contentAt loc (build d').2.disk.tree = contentAt loc (build d).2.disk.tree) ∧
          (build (build d).2.disk).1 = .ok built ∧
          ∀ loc, contentAt loc (build (build d).2.disk).2.disk.tree = contentAt loc (build d).2.disk.tree := by
  intro build
  obtain ⟨hresult, hdone⟩ := run_alike hsite hcopy hrest hrest' hsame tree
  refine ⟨hresult.symm, fun built hbuilt => ⟨fun loc => (hdone built hbuilt).content loc id, ?_⟩⟩
  have hfirst : outcome (run bundlers site (some tree) bundler) ⟨d, l⟩ = (.ok built, (build d).2) := Prod.ext hbuilt rfl
  have hrested := atRest_run hsite hcopy hrest hfirst
  have hsources := sameSources_run hsite hcopy hrest hfirst
  obtain ⟨hagain, hsettled⟩ := run_alike hsite hcopy hrest hrested hsources tree
  exact ⟨hagain.symm.trans hbuilt, fun loc => (hsettled built hbuilt).content loc id⟩

/-! ## Builds of one page -/

theorem cleared_of_items (h : ∀ item ∈ d.tree, ¬ loc <+: item.1) : Cleared loc d := by
  intro l hl
  cases hentry : entryAt l d.tree with
  | none => rfl
  | some e => exact absurd hl (h _ (FileTree.entryAt_mem hentry))

/-- The project of one page with a layout, beside the results of an earlier build. -/
def laidOut : Disk :=
  { pageProject.disk with
    tree := FileTree.put ["project".toList, "src".toList, "app".toList, "layout.html".toList]
      (.file [] (.seconds 0)) pageProject.disk.tree }

def onlyScript : Location := ["project".toList, "src".toList, "app".toList, "home".toList, "main.ts".toList]

/-- The same sources without any results, and with another text in the script entry. -/
def unbuilt : Disk := (laidOut.pruned ["project".toList, "dist".toList]).store onlyScript [97]

def onlyBuilt : Built :=
  ⟨["index".toList], [.ofLocation ["project".toList, "dist".toList, "index.html".toList]], "copy".toList, .text []⟩

theorem outcome_run_laidOut :
    (outcome (run [] emptySite (some []) (some copyBundler)) ⟨laidOut, []⟩).1 = .ok onlyBuilt := by
  let emptied : Disk := laidOut.pruned ["project".toList, "dist".toList]
  have hprepared : outcome (prepare [] emptySite (some []) (some copyBundler)) ⟨laidOut, []⟩ =
      (.ok ([], copyBundler), ⟨emptied, []⟩) := rfl
  have hpages : (Page.discover emptySite).outcome emptied [] = (.ok [("index".toList, onlyPage)], []) := by cbv
  have hstages : (outcome (runStages emptySite [] copyBundler) ⟨emptied, []⟩).1.toOption = some onlyBuilt := by
    unfold runStages materializeSite
    rw [Job.outcome_bind, Job.outcome_attempt, Job.outcome_bind, Job.outcome_look]
    simp only [hpages]
    decide +kernel
  rw [outcome_run, hprepared]
  exact Reading.eq_ok_of_toOption hstages

theorem usual_emptySite : Usual emptySite ["project".toList] :=
  ⟨rfl, rfl, rfl, rfl, rfl, rfl, rfl, rfl, rfl, by decide, by decide⟩

theorem sameSources_unbuilt : SameSources emptySite ["project".toList] ⟨laidOut, []⟩ unbuilt := by
  have hentry : ∀ loc, ¬ ["project".toList, "dist".toList] <+: loc → loc ≠ onlyScript →
      entryAt loc unbuilt.tree = entryAt loc laidOut.tree := by
    intro loc hout hne
    have hstored : entryAt loc unbuilt.tree = entryAt loc (laidOut.pruned ["project".toList, "dist".toList]).tree :=
      FileTree.entryAt_put_of_ne hne _ _
    rw [hstored, Disk.entryAt_pruned, if_neg hout]
  refine ⟨rfl, fun loc hout => ?_, fun loc hout hscript => ?_⟩
  · by_cases hloc : loc = onlyScript
    · rw [hloc]
      decide
    · rw [kindAt, kindAt, contentAt, contentAt, hentry loc hout hloc]
  · have hpages : pagesFound emptySite ⟨laidOut, []⟩ = [("index".toList, onlyPage)] := by cbv
    have hne : loc ≠ onlyScript := by
      rintro rfl
      refine hscript ⟨("index".toList, onlyPage), by rw [hpages]; exact List.mem_singleton_self _, _, rfl, ?_⟩
      exact Path.resolve_plain (by decide)
    rw [contentAt, contentAt, hentry loc hout hne]

/-- A build of the page gives the same result and the same files whether there are results of an earlier build or
not, and whatever the script entry held; it can be repeated. -/
theorem run_repeatable_page :
    let build (disk : Disk) := outcome (run [] emptySite (some []) (some copyBundler)) ⟨disk, []⟩
    (build laidOut).1 = .ok onlyBuilt ∧ (build unbuilt).1 = .ok onlyBuilt ∧
      (∀ loc, contentAt loc (build unbuilt).2.disk.tree = contentAt loc (build laidOut).2.disk.tree) ∧
        (build (build laidOut).2.disk).1 = .ok onlyBuilt ∧
          ∀ loc, contentAt loc (build (build laidOut).2.disk).2.disk.tree =
            contentAt loc (build laidOut).2.disk.tree := by
  have hrest : AtRest emptySite ["project".toList] laidOut :=
    ⟨⟨by decide, by decide, by decide⟩, cleared_of_items (by decide), .inr (by decide)⟩
  have hrest' : AtRest emptySite ["project".toList] unbuilt :=
    ⟨⟨by decide, by decide, by decide⟩, cleared_of_items (by decide), .inl (cleared_of_items (by decide))⟩
  obtain ⟨hresult, hdone⟩ := run_repeatable [] emptySite ["project".toList] (some copyBundler) [] [] laidOut unbuilt
    usual_emptySite rfl hrest hrest' sameSources_unbuilt
  exact ⟨outcome_run_laidOut, hresult.trans outcome_run_laidOut, hdone onlyBuilt outcome_run_laidOut⟩

end Sitewright.Build
