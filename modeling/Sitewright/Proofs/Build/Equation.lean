import Sitewright.Proofs.Build.Listing
/-!
# What a build makes of each page

A build that succeeds has made every page of the project on its own: the page is assembled, its line ends are
normalised, its references to files are replaced by references to bundled ones, its addresses are rooted, and the
shared stylesheet is linked. Nothing that the build does for other pages, for public files, or at its end shows in
it.

* `Succeeds`: the stages of a build that succeeds.

Main statements: `Succeeds.page_eq`, `Succeeds.outputs_eq`.
-/
set_option autoImplicit false

namespace Sitewright.Build

open FileTree (entryAt)
open Disk (Changes Ground Spares spares_nowhere)
open Job (outcome Keeps)
open Reading (textIn)

variable {site : Site} {home loc : Location} {d d₁ : Disk} {w w' : Workspace} {tree : Variables} {l : Log}
  {bundlers : Bundlers} {bundler : Option Bundler} {built : Built} {made : Artifacts}

/-! ## Projects -/

theorem cleared_of_attached (h : d.tree.Attached) (hnone : entryAt loc d.tree = none) : Cleared loc d := by
  rintro _ ⟨rest, rfl⟩
  by_cases hrest : rest = []
  · rw [hrest, List.append_nil, hnone]
  · refine Option.eq_none_iff_forall_ne_some.2 fun e he => ?_
    rw [h.directory_above he hrest] at hnone
    cases hnone

/-! ## Emptying -/

/-- An output directory that has been emptied was a directory, or nothing at all. -/
theorem reserved_of_emptyOutput (hsite : Usual site home) (hground : Ground home d) (hattached : d.tree.Attached)
    (h : outcome (emptyOutput site) ⟨d, l⟩ = (.ok (), w')) : Reserved (home ++ [site.outDir]) d := by
  have hsize : ¬ Utf8.size site.outDir > FileTree.nameLimit := by
    rw [hsite.outDir]
    decide
  have hplace := Disk.place_in_directory hsite.plain_outDir hground.plain hground.standing hsize
  have hnamed : Named site := by
    refine ⟨?_, ?_, hsite.plain_tmpDir, hsite.plain_outDir⟩ <;> rw [hsite.root]
    · rfl
    · exact hground.plain.straight
  cases hentry : entryAt (home ++ [site.outDir]) d.tree with
  | none => exact .inl (cleared_of_attached hattached hentry)
  | some e =>
    rw [hentry] at hplace
    rw [show Path.ofLocation (home ++ [site.outDir]) = site.outRoot from hsite.placed.outRoot_eq.symm] at hplace
    rcases outcome_emptyOutput hnamed ⟨d, l⟩ with ⟨e, hfails⟩ | ⟨-, hgone⟩ | ⟨loc, hdir, -⟩
    · rw [hfails] at h
      cases h
    · rw [Disk.exists?_of_place hplace] at hgone
      cases hgone
    · rw [hplace] at hdir
      cases hdir
      exact .inr hentry

/-! ## The stages of a build -/

/-- The stages of a build that succeeds: the output directory is emptied, the pages are materialised, bundled and
published, and the temporary directories are removed. -/
structure Succeeds (site : Site) (home : Location) (tree : Variables) (l : Log) (d d₁ : Disk) (made : Artifacts)
    (w₁ w₂ w₃ w' : Workspace) (outputs : List Path) : Prop where
  emptied : Emptied site home l d d₁
  cleared : Cleared (home ++ [site.outDir]) d₁
  materialized : outcome (materializeSite site tree) ⟨d₁, l⟩ = (.ok made, w₁)
  bundled : ∃ b, outcome (bundleByCopying site made) w₁ = (.ok b, w₂)
  published : outcome (publish site site.baseUrl) w₂ = (.ok outputs, w₃)
  cleaned : outcome (cleanUp site (some made)) w₃ = (.ok (), w')

theorem exists_of_run_ok (hsite : Usual site home) (hground : Ground home d) (hattached : d.tree.Attached)
    (hcopy : Selects bundlers site bundler copyBundler)
    (h : outcome (run bundlers site (some tree) bundler) ⟨d, l⟩ = (.ok built, w')) :
    ∃ d₁ made w₁ w₂ w₃ outputs, Succeeds site home tree l d d₁ made w₁ w₂ w₃ w' outputs ∧
      built = ⟨made.routes, outputs, copyBundler.name, site.baseUrl⟩ := by
  have hreserved : Reserved (home ++ [site.outDir]) d := by
    rw [outcome_run] at h
    rcases hprepare : outcome (prepare bundlers site (some tree) bundler) ⟨d, l⟩ with ⟨e | ⟨tree', b⟩, w₀⟩
    · rw [hprepare] at h
      cases h
    · obtain ⟨tree'', v, hvariables, hrest⟩ := Job.exists_of_bind_ok hprepare
      cases hvariables
      obtain ⟨b', v', hbundler, hrest⟩ := Job.exists_of_bind_ok hrest
      rw [hcopy.outcome_bundlerOf] at hbundler
      cases hbundler
      obtain ⟨u, v'', hempty, -⟩ := Job.exists_of_bind_ok hrest
      exact reserved_of_emptyOutput hsite hground hattached hempty
  obtain ⟨d₁, hempty, hchange, hclear⟩ := outcome_emptyOutput_reserved hsite hground hreserved l
  rw [outcome_run, outcome_prepare_selected hcopy hempty] at h
  obtain ⟨made, w₁, outputs, w₃, hmade, hpublished, hcleaned, rfl⟩ := exists_of_runStages_ok h
  obtain ⟨b, w₂, hbundled, hpublished⟩ := Job.exists_of_bind_ok hpublished
  exact ⟨d₁, made, w₁, w₂, w₃, outputs, ⟨⟨hground, hchange⟩, hclear, hmade, ⟨b, hbundled⟩, hpublished, hcleaned⟩, rfl⟩

namespace Succeeds

variable {w₁ w₂ w₃ : Workspace} {outputs : List Path} {item : Text × Page}

section

variable (h : Succeeds site home tree l d d₁ made w₁ w₂ w₃ w' outputs) (hsite : Usual site home)
include h

theorem discovered : ∃ pages, ((Page.discover site).outcome d₁ l).1 = .ok pages ∧ pagesFound site ⟨d₁, l⟩ = pages := by
  have hmade := h.materialized
  unfold materializeSite at hmade
  obtain ⟨pages, w₀, hlook, -⟩ := Job.exists_of_bind_ok hmade
  obtain ⟨hdiscover, -⟩ := Job.of_look_ok hlook
  refine ⟨pages, hdiscover, ?_⟩
  unfold pagesFound
  rw [hdiscover]
  rfl

theorem tmpRoots : ∀ a ∈ some made, a.tmpRoots = [site.tmpRoot] := by
  intro a ha
  cases ha
  exact (routes_materializeSite h.materialized).1

include hsite

theorem route (hitem : item ∈ pagesFound site ⟨d₁, l⟩) :
    item.1 = item.2.route ∧ Page.Found site d₁ item.2 ∧ Path.FileName item.2.route := by
  obtain ⟨hkey, hfound⟩ := mem_pagesFound hitem
  exact ⟨hkey, hfound, fileName_route hsite.placed h.emptied.ground'.sound hfound⟩

theorem made_eq : made.routes = Keyed.keys (pagesFound site ⟨d₁, l⟩) ∧
    made.pages = (pagesFound site ⟨d₁, l⟩).map fun item => (item.1, .ofLocation (documentAt site home item.1)) := by
  obtain ⟨-, -, hpages⟩ := h.emptied.materializeSite hsite h.materialized
  have hdocuments : made.pages =
      (pagesFound site ⟨d₁, l⟩).map fun item => (item.1, .ofLocation (documentAt site home item.1)) := by
    rw [hpages]
    refine List.map_congr_left fun item hitem => ?_
    obtain ⟨hkey, -, hroute⟩ := h.route hsite hitem
    rw [pageFile_tmpRoot hsite hroute, hkey]
  refine ⟨?_, hdocuments⟩
  rw [Artifacts.routes, hdocuments, Keyed.keys, Keyed.keys, List.map_map]
  rfl

theorem nodup_routes : made.routes.Nodup := by
  obtain ⟨hroutes, -⟩ := h.made_eq hsite
  obtain ⟨pages, hdiscover, hfound⟩ := h.discovered
  rw [hroutes, hfound]
  exact (Page.mem_discover hdiscover).1

theorem ground₁ : Ground home w₁.disk := by
  obtain ⟨htouches, -, -⟩ := h.emptied.materializeSite hsite h.materialized
  exact htouches.ground h.emptied.ground'

theorem bundledPages : Changes (Beneath home [site.outDir]) Nowhere w₁.disk w₂.disk ∧
    ∀ item ∈ pagesFound site ⟨d₁, l⟩,
      PageBundled site home w₁.disk (item.1, .ofLocation (documentAt site home item.1)) w₂.disk := by
  obtain ⟨b, hbundled⟩ := h.bundled
  obtain ⟨-, hmaterialized, -⟩ := h.emptied.materializeSite hsite h.materialized
  obtain ⟨hroutes, hpages⟩ := h.made_eq hsite
  have hitems : ∀ item ∈ made.pages, Path.FileName item.1 ∧ Path.PlainName (fileOf item.1) ∧
      item.2 = .ofLocation (documentAt site home item.1) := by
    intro item hitem
    rw [hpages] at hitem
    obtain ⟨found, hmem, rfl⟩ := List.mem_map.1 hitem
    obtain ⟨hkey, -, hroute⟩ := h.route hsite hmem
    rw [hkey]
    exact ⟨hroute, (hmaterialized found hmem).name, rfl⟩
  obtain ⟨hchange, hposts⟩ := pagesBundled hsite (h.ground₁ hsite) (h.nodup_routes hsite) hitems hbundled
  refine ⟨hchange, fun item hitem => hposts _ ?_⟩
  rw [hpages]
  exact List.mem_map_of_mem hitem

theorem ground₂ : Ground home w₂.disk := (h.ground₁ hsite).step (h.bundledPages hsite).1

theorem works : Changes (Workplace site home) Nowhere w₁.disk w'.disk := by
  obtain ⟨hbundling, -⟩ := h.bundledPages hsite
  obtain ⟨hpublishing, -, -⟩ := Build.published hsite (h.ground₂ hsite) h.published
  have hcleaning := changes_cleanUp hsite h.emptied.ground.plain h.tmpRoots h.cleaned
  have hout : ∀ l, Beneath home [site.outDir] l → Workplace site home l := fun _ hl => hl.mono (by simp [outputNames])
  refine ((hbundling.widen hout).trans (hpublishing.widen ?_)).trans (hcleaning.widen fun _ hl => hl.workplace)
  rintro _ ⟨name, -, rfl⟩
  exact hout _ ⟨site.outDir, List.mem_singleton_self _, List.prefix_append _ _⟩

theorem ready (hitem : item ∈ pagesFound site ⟨d₁, l⟩) :
    Path.PlainName (fileOf item.1) ∧ fileOf item.1 ∈ readyNames site w₂.disk := by
  obtain ⟨-, hmaterialized, -⟩ := h.emptied.materializeSite hsite h.materialized
  obtain ⟨hkey, -, -⟩ := h.route hsite hitem
  have hname : Path.PlainName (fileOf item.1) := hkey ▸ (hmaterialized item hitem).name
  obtain ⟨text, hread, -⟩ := (h.bundledPages hsite).2 item hitem
  exact ⟨hname, mem_readyNames hsite h.emptied.ground.plain hname hread⟩

/-- What a build makes of a page that refers to nothing in the directories that it works in. -/
theorem page_eq (hitem : item ∈ pagesFound site ⟨d₁, l⟩) (hrefrains : Refrains site home tree d item.2) :
    ∃ base html, site.baseUrl = .text base ∧
      ((Assembly.assembleFile site tree item.2 true).outcome d []).1 = .ok html ∧
      w'.disk.readBytes (.ofLocation (outputAt site home (fileOf item.1))) =
        .ok (Utf8.encode (publishedText site base (bundledText site w'.disk (Newline.normalize html)))) := by
  obtain ⟨-, hmaterialized, -⟩ := h.emptied.materializeSite hsite h.materialized
  obtain ⟨hkey, -, -⟩ := h.route hsite hitem
  obtain ⟨hname, hready⟩ := h.ready hsite hitem
  obtain ⟨html, hhtml, hdocument⟩ := (hmaterialized item hitem).document hrefrains
  have houtside : RefersOutside site (Workplace site home) (Newline.normalize html) := hrefrains.references html hhtml
  -- the bundled page, which has no carriage returns, is read as it was written
  obtain ⟨text, hread, htext⟩ := (h.bundledPages hsite).2 item hitem
  have hroot : w₁.disk.isDirectory site.root = .ok true := by
    rw [hsite.root]
    exact (h.ground₁ hsite).standing
  have hlook : bundledText site w'.disk (Newline.normalize html) = bundledText site w₁.disk (Newline.normalize html) :=
    bundledText_congr ((h.works hsite).alikeOutside fun _ hc => hc.elim) hsite.placed.absolute_root not_beneath_nil
      houtside fun _ _ _ hc => hc
  obtain ⟨-, hpublished, -⟩ := Build.published hsite (h.ground₂ hsite) h.published
  obtain ⟨base, bundledHtml, hbase, hbundled, hwritten⟩ := hpublished _ hready
  have hbundledHtml : bundledHtml = bundledText site w₁.disk (Newline.normalize html) := by
    have hplain : '\r' ∉ bundledText site w₁.disk (Newline.normalize html) :=
      not_mem_bundledText hroot (Newline.not_mem_normalize html)
    have hmade : text = bundledText site w₁.disk (Newline.normalize html) := by
      refine htext _ ?_ ?_
      · rw [hkey]
        exact Reading.textIn_of_readBytes hdocument
      · exact houtside.mono fun _ hl => hl.mono (by simp [outputNames])
    rw [bundledRoot_child hsite, ← bundledAt] at hbundled
    rw [Reading.textIn_of_readBytes hread, hmade, Newline.normalize_of_not_mem hplain] at hbundled
    exact (Except.ok.inj hbundled).symm
  have hpage : isPageName (fileOf item.1) = true := (plain_of_readyNames (h.ground₂ hsite).sound hready).2
  have hcleaning := changes_cleanUp hsite h.emptied.ground.plain (h.tmpRoots) h.cleaned
  refine ⟨base, html, hbase, hhtml, ?_⟩
  rw [hlook, ← hbundledHtml, hcleaning.readBytes_eq ?_ (spares_temporary hsite hpage) (spares_nowhere _), hwritten]
  exact (h.emptied.ground.plain.child hsite.plain_outDir).child hname

theorem entry_eq (hitem : item ∈ pagesFound site ⟨d₁, l⟩) (hrefrains : Refrains site home tree d item.2) :
    ∀ path ∈ item.2.script, ∃ script, ((entryOf site item.2).outcome d []).1 = .ok script ∧
      w'.disk.readBytes path = .ok (Utf8.encode script) := by
  intro path hpath
  obtain ⟨-, hmaterialized, -⟩ := h.emptied.materializeSite hsite h.materialized
  obtain ⟨-, hfound, -⟩ := h.route hsite hitem
  obtain ⟨script, hscript, hread⟩ := (hmaterialized item hitem).entry hrefrains path hpath
  obtain ⟨rfl, hplain, -⟩ := script_of_found hsite h.emptied.ground' hfound hpath
  refine ⟨script, hscript, ?_⟩
  rw [(h.works hsite).readBytes_eq hplain ?_ (spares_nowhere _), hread]
  rw [scriptOf, List.append_assoc]
  exact hsite.spares_outputs _

theorem cleared₁ : Cleared (home ++ [site.outDir]) w₁.disk := by
  have hground := h.emptied.ground'
  have hchange : Changes (Beneath home [site.tmpDir]) (ScriptEntry site ⟨d₁, l⟩) d₁ w₁.disk := by
    have hkept := disk_materializeSite tree (w := ⟨d₁, l⟩) (.refl _ _ d₁)
      (keeps_changes_make (List.mem_singleton_self _) hsite.placed hground)
      fun item hitem => writesPage_changes (List.mem_singleton_self _) hsite.placed hground rfl hground.sound hitem
    rw [h.materialized] at hkept
    exact hkept
  intro loc hloc
  rw [hchange.entry loc (not_beneath_of_ne hsite.tmpDir_ne_outDir.symm hloc) ?_, h.cleared loc hloc]
  rintro ⟨item, hitem, path, hpath, rfl⟩
  obtain ⟨rfl, hplain, -⟩ := script_of_found hsite hground (mem_pagesFound hitem).2 hpath
  rw [Path.resolve_plain hplain, scriptOf, List.append_assoc] at hloc
  exact hsite.spares_out _ _ (List.prefix_refl _) ⟨site.outDir, List.mem_singleton_self _, hloc⟩

theorem isDirectory_public (hpublic : site.publicDir = "public".toList) :
    w₁.disk.isDirectory (.ofLocation (home ++ [site.publicDir] ++ [site.tmpDir])) =
      d.isDirectory (.ofLocation (home ++ [site.publicDir] ++ [site.tmpDir])) := by
  obtain ⟨htouches, -, -⟩ := h.emptied.materializeSite hsite h.materialized
  have hplain : PlainNames (home ++ [site.publicDir] ++ [site.tmpDir]) := by
    refine (h.emptied.ground.plain.child ?_).child hsite.plain_tmpDir
    rw [hpublic]
    decide
  have hspared : Spares (Workplace site home) (home ++ [site.publicDir] ++ [site.tmpDir]) := by
    rw [List.append_assoc]
    refine spares_beneath_of_not_mem ?_ _
    rw [hpublic, outputNames, hsite.outDir, hsite.tmpDir]
    decide
  have hscript : Spares (ScriptEntry site ⟨d₁, l⟩) (home ++ [site.publicDir] ++ [site.tmpDir]) := by
    rintro _ hl ⟨item, hitem, path, hpath, rfl⟩
    obtain ⟨rfl, hentry, -⟩ := script_of_found hsite h.emptied.ground' (mem_pagesFound hitem).2 hpath
    rw [Path.resolve_plain hentry] at hl
    have hlen := hl.length_le
    simp [scriptOf, appRoot] at hlen
  have hfirst : Changes (Workplace site home) Nowhere d d₁ :=
    h.emptied.change.widen fun _ hl => hl.mono (by simp [outputNames])
  exact (htouches.isDirectory_at hplain hspared hscript).trans
    (hfirst.isDirectory_at hplain hspared (spares_nowhere _))

/-- If the public directory holds no directory with the name of the temporary one, a build gives one file for each
page, in the order of their names. -/
theorem outputs_eq (hpublic : site.publicDir = "public".toList)
    (hfile : d.isDirectory (.ofLocation (home ++ [site.publicDir] ++ [site.tmpDir])) ≠ .ok true) :
    outputs = (Text.sorted ((Keyed.keys (pagesFound site ⟨d₁, l⟩)).map fileOf)).map site.outRoot.child := by
  obtain ⟨hroutes, -⟩ := h.made_eq hsite
  have hnames : ∀ route ∈ made.routes, Path.FileName route := by
    rw [hroutes]
    exact fileName_routes hsite.placed h.emptied.ground'.sound
  have hfile₁ : w₁.disk.isDirectory (.ofLocation (home ++ [site.publicDir] ++ [site.tmpDir])) ≠ .ok true := by
    rw [h.isDirectory_public hsite hpublic]
    exact hfile
  have hfilling : Changes (Filling site home made.routes) Nowhere w₁.disk w₂.disk := by
    obtain ⟨b, hbundled⟩ := h.bundled
    have hsteps := outputSteps_filling hsite (h.ground₁ hsite) hpublic hfile₁ hnames
    have hkept := hsteps.bundleByCopying.keeps w₁ (.refl _ _ _)
    rw [hbundled] at hkept
    exact hkept
  have hclear : Cleared (bundledDir site home) w₁.disk := fun loc hloc =>
    h.cleared₁ hsite loc ((List.prefix_append _ _).trans hloc)
  have hready : ∀ route ∈ made.routes, fileOf route ∈ readyNames site w₂.disk := by
    intro route hroute
    rw [hroutes] at hroute
    obtain ⟨item, hitem, rfl⟩ := List.mem_map.1 hroute
    exact (h.ready hsite hitem).2
  obtain ⟨-, -, houtputs⟩ := Build.published hsite (h.ground₂ hsite) h.published
  rw [houtputs, readyNames_eq hsite (h.ground₁ hsite) (h.nodup_routes hsite) hclear hfilling hready, hroutes]

end

end Succeeds

end Sitewright.Build
