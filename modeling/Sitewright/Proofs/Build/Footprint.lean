import Sitewright.Proofs.Build.Stages
import Sitewright.Proofs.File.Beneath
import Sitewright.Proofs.Text.Encoding
/-!
# What a build touches

A build by copying makes, writes and removes files and directories under names that it takes from routes, from
addresses in pages, from digests and from the site. Where the site names its output and temporary directories,
its root route and its shared stylesheet plainly, all of them lie in these two directories, but for the script
entries of the pages, which are written where they stand.

* `Placed`: a site with such names in a directory.
* `ScriptEntry`: the script entries that a build writes.

Main statement: `run_touches_outputs`.
-/
set_option autoImplicit false

namespace Sitewright.Build

open FileTree (entryAt)
open Disk (Changes Ground)
open Job (outcome Keeps)

/-! ## Names of bundled files -/

theorem not_mem_cutSuffix {name : Text} {c : Char} (hdot : c ≠ '.') (h : c ∉ name) :
    c ∉ (Path.cutSuffix name).1 ∧ c ∉ (Path.cutSuffix name).2 := by
  unfold Path.cutSuffix
  simp only
  split
  · exact ⟨h, List.not_mem_nil⟩
  · constructor
    · intro hc
      exact h (List.mem_reverse.1 (List.mem_of_mem_drop (List.mem_reverse.1 hc)))
    · intro hc
      rcases List.mem_cons.1 hc with hc | hc
      · exact hdot hc
      · have htail := (List.takeWhile_sublist (· ≠ '.')).subset (List.mem_reverse.1 hc)
        exact h (List.mem_reverse.1 htail)

theorem noSlash_name {p : Path} (h : p.Spelt) : '/' ∉ p.name := by
  unfold Path.name
  cases hlast : p.parts.getLast? with
  | none => exact List.not_mem_nil
  | some part => exact (h part (List.mem_of_getLast? hlast)).2

theorem fileName_bundledName {source : Path} (h : source.Spelt) (bytes : Bytes) :
    Path.FileName (bundledName source bytes) := by
  obtain ⟨hstem, hsuffix⟩ := not_mem_cutSuffix (by decide : '/' ≠ '.') (noSlash_name h)
  have hdash : '-' ∈ bundledName source bytes := by simp [bundledName]
  refine ⟨?_, ?_, ?_, ?_⟩
  · intro hc
    rw [hc] at hdash
    cases hdash
  · intro hc
    rw [hc] at hdash
    exact absurd hdash (by decide)
  · intro hc
    rw [hc] at hdash
    exact absurd hdash (by decide)
  · have hprint : '/' ∉ Sha256.fingerprint bytes Sha256.nameDigits := Sha256.not_mem_fingerprint (by decide) bytes _
    simp only [bundledName, Path.stem, Path.suffix, List.mem_append, List.mem_cons, not_or]
    exact ⟨⟨hstem, by decide, hprint⟩, hsuffix⟩

/-! ## Sites -/

/-- A site in a directory, with plain names for its output and temporary directories, its root route and its
shared stylesheet. -/
structure Placed (site : Site) (home : Location) : Prop where
  root : site.root = .ofLocation home
  outName : Path.FileName site.outDir
  tmpName : Path.FileName site.tmpDir
  routeName : Path.FileName site.rootRoute
  styleName : Path.FileName site.globalStyleName

/-- The names of the directories that a build works in. -/
def outputNames (site : Site) : List Text := [site.outDir, site.tmpDir]

variable {site : Site} {home : Location} {d d₀ : Disk} {S : Location → Prop}

theorem spelt_ofLocation {loc : Location} (h : PlainNames loc) : (Path.ofLocation loc).Spelt := by
  intro part hpart
  have hpart' := h part hpart
  refine ⟨?_, hpart'.noSlash⟩
  simp [Path.isPart, hpart'.nonempty, hpart'.not_dot]

namespace Placed

theorem absolute_root (h : Placed site home) : site.root.anchor ≠ .here := by
  rw [h.root]
  simp [Path.ofLocation]

theorem spelt_root (h : Placed site home) (hhome : PlainNames home) : site.root.Spelt := by
  rw [h.root]
  exact spelt_ofLocation hhome

theorem spelt_sourceOf (h : Placed site home) (hhome : PlainNames home) (address : Text) :
    (sourceOf site address).Spelt := (h.spelt_root hhome).join _

theorem tmpRoot_eq (h : Placed site home) : site.tmpRoot = (Path.ofLocation home).child site.tmpDir := by
  rw [Site.tmpRoot, h.root, h.tmpName.join_eq]

theorem outRoot_eq (h : Placed site home) : site.outRoot = (Path.ofLocation home).child site.outDir := by
  rw [Site.outRoot, h.root, h.outName.join_eq]

theorem bundledRoot_eq (h : Placed site home) :
    site.bundledRoot = .ofLocation (home ++ [site.outDir] ++ [site.tmpDir]) := by
  rw [Site.bundledRoot, h.tmpName.join_eq, h.outRoot_eq]
  rfl

theorem tmpRoot (h : Placed site home) : site.tmpRoot.LeadsBeneath home [site.tmpDir] := by
  rw [h.tmpRoot_eq]
  exact Path.leadsBeneath_child (List.mem_singleton_self _) h.tmpName

theorem outRoot (h : Placed site home) : site.outRoot.LeadsBeneath home [site.outDir] := by
  rw [h.outRoot_eq]
  exact Path.leadsBeneath_child (List.mem_singleton_self _) h.outName

theorem bundledRoot (h : Placed site home) : site.bundledRoot.LeadsBeneath home [site.outDir] := by
  rw [Site.bundledRoot, h.tmpName.join_eq]
  exact h.outRoot.child h.tmpName

theorem assetsRoot_eq (h : Placed site home) :
    assetsRoot site = .ofLocation (home ++ [site.outDir] ++ ["assets".toList]) := by
  have hassets : Path.FileName "assets".toList := by decide
  rw [assetsRoot, hassets.join_eq, h.outRoot_eq]
  rfl

theorem assetsRoot (h : Placed site home) : (assetsRoot site).LeadsBeneath home [site.outDir] := by
  have hassets : Path.FileName "assets".toList := by decide
  rw [Build.assetsRoot, hassets.join_eq]
  exact h.outRoot.child hassets

theorem globalStyle (h : Placed site home) :
    ((Build.assetsRoot site).join site.globalStyleFile).LeadsBeneath home [site.outDir] := by
  have hname : Path.FileName site.globalStyleFile := h.styleName.append (by decide) (by decide)
  rw [hname.join_eq]
  exact h.assetsRoot.child hname

theorem asset (h : Placed site home) (hhome : PlainNames home) (address : Text) (bytes : Bytes) :
    ((Build.assetsRoot site).join (bundledName (sourceOf site address) bytes)).LeadsBeneath home
      [site.outDir] := by
  have hname := fileName_bundledName (h.spelt_sourceOf hhome address) bytes
  rw [hname.join_eq]
  exact h.assetsRoot.child hname

theorem pageFile {names : List Text} {dir : Path} (hdir : dir.LeadsBeneath home names) {route : Text}
    (hroute : Path.FileName route) : (pageFile dir route).LeadsBeneath home names := by
  have hname : Path.FileName (route ++ ".html".toList) := hroute.append (by decide) (by decide)
  rw [Build.pageFile, hname.join_eq]
  exact hdir.child hname

end Placed

/-! ## Steps -/

theorem fileName_route (hplaced : Placed site home) (hsound : FileTree.Sound d.tree) {page : Page}
    (h : Page.Found site d page) : Path.FileName page.route := by
  obtain ⟨names, hlist, hname⟩ := h.listed
  rw [h.route, Page.routeOf]
  split
  · exact hplaced.routeName
  · exact (Disk.plain_of_list hsound hlist _ hname).fileName

theorem fileName_routes (hplaced : Placed site home) {w : Workspace} (hsound : FileTree.Sound w.disk.tree) :
    ∀ route ∈ Keyed.keys (pagesFound site w), Path.FileName route := by
  intro route hroute
  obtain ⟨item, hitem, rfl⟩ := List.mem_map.1 hroute
  obtain ⟨hkey, hfound⟩ := mem_pagesFound hitem
  rw [hkey]
  exact fileName_route hplaced hsound hfound

/-- A property of disks on which there is a directory to work in; it outlasts whatever is done to the output
directory. -/
structure Lasting (site : Site) (home : Location) (I : Disk → Prop) : Prop where
  ground : ∀ d, I d → Ground home d
  output : ∀ d d', Changes (Beneath home [site.outDir]) Nowhere d d' → I d → I d'

variable {I : Disk → Prop} {p : Path}

namespace Lasting

theorem writeBytes (h : Lasting site home I) (hp : p.LeadsBeneath home [site.outDir]) (bytes : Bytes) :
    Keeps I (Job.change (·.writeBytes p bytes)) :=
  Keeps.change fun d _ hwrite hd =>
    h.output _ _ (Disk.changes_writeBytes_beneath (h.ground d hd).plain hp hwrite) hd

theorem ensureDirectories (h : Lasting site home I) (hp : p.LeadsBeneath home [site.outDir]) :
    Keeps I (Job.changeBySteps (·.ensureDirectories p)) :=
  Keeps.changeBySteps fun d hd => h.output _ _ (Disk.changes_ensureDirectories_beneath (h.ground d hd) hp) hd

theorem removeTree (h : Lasting site home I) (hp : p.LeadsBeneath home [site.outDir]) :
    Keeps I (Job.changeBySteps (·.removeTree p)) :=
  Keeps.changeBySteps fun d hd => h.output _ _ (Disk.changes_removeTree_beneath (h.ground d hd).plain hp) hd

/-- The output directory is filled by work in it only. -/
theorem outputSteps (hplaced : Placed site home) (h : Lasting site home I) {routes : List Text}
    (hroutes : ∀ route ∈ routes, Path.FileName route) : OutputSteps site routes (Disk.Twin I) where
  answers := by
    rintro d _ ⟨rfl, _⟩
    exact .refl d
  make p hp := by
    rcases List.mem_pair.1 hp with rfl | rfl
    · exact (h.ensureDirectories hplaced.assetsRoot).couples
    · exact (h.ensureDirectories hplaced.bundledRoot).couples
  merge := by
    rintro d _ ⟨rfl, hd⟩
    exact ⟨rfl, rfl, h.output _ _ (Disk.changes_copyTree_beneath (h.ground d hd) _ hplaced.outRoot) hd⟩
  style := (Keeps.change fun d _ hcopy hd =>
    h.output _ _ (Disk.changes_copyBytes_beneath (h.ground d hd).plain hplaced.globalStyle hcopy) hd).couples
  asset address bytes := by
    refine (Keeps.change fun d d' hwrite hd => ?_).couples
    have hground := h.ground d hd
    have hasset := hplaced.asset hground.plain address bytes
    exact h.output _ _ (Disk.changes_writeBytes_beneath hground.plain hasset hwrite) hd
  bundled route hroute s := (h.writeBytes (Placed.pageFile hplaced.bundledRoot (hroutes route hroute)) _).couples
  publish := by
    rintro d _ names ⟨rfl, hd⟩ hlist name hname _ s
    have hplain := Disk.plain_of_list (h.ground d hd).sound hlist name hname
    exact (h.writeBytes (hplaced.outRoot.child hplain.fileName) _).couples

theorem steps (hplaced : Placed site home) (h : Lasting site home I)
    (htmp : Keeps I (Job.changeBySteps (·.removeTree site.tmpRoot))) {routes : List Text}
    (hroutes : ∀ route ∈ routes, Path.FileName route) : Steps site routes (Disk.Twin I) where
  toOutputSteps := h.outputSteps hplaced hroutes
  remove p hp := by
    rcases List.mem_pair.1 hp with rfl | rfl
    · exact (h.removeTree hplaced.bundledRoot).couples
    · exact htmp.couples

theorem emptyOutput (hplaced : Placed site home) (h : Lasting site home I) : Keeps I (emptyOutput site) := by
  refine keeps_emptyOutput fun d _ _ hd => ?_
  have hground := h.ground d hd
  have hsame : Path.ofLocation (site.outRoot.resolve d.here) = site.outRoot := by
    rw [hplaced.outRoot_eq]
    have hdots : ['.', '.'] ∉ home ++ [site.outDir] := by
      rw [List.mem_append, List.mem_singleton, not_or]
      exact ⟨hground.plain.straight, hplaced.outName.not_dots.symm⟩
    exact congrArg Path.ofLocation (Path.resolve_ofLocation hdots)
  rw [hsame]
  exact h.output _ _ (Disk.changes_removeTree_beneath hground.plain hplaced.outRoot) hd

end Lasting

/-! ## What is touched -/

/-- What a build by copying may touch: its two directories, and files of a class elsewhere. -/
def Touches (site : Site) (home : Location) (S : Location → Prop) (d₀ d : Disk) : Prop :=
  Changes (Beneath home (outputNames site)) S d₀ d

theorem Touches.ground (hground : Ground home d₀) (h : Touches site home S d₀ d) : Ground home d := hground.step h

theorem lasting_touches (hground : Ground home d₀) : Lasting site home (Touches site home S d₀) where
  ground _ h := h.ground hground
  output _ _ hchange h := h.trans (hchange.widen fun _ hl => hl.mono (by simp [outputNames]))

section

variable {names : List Text} (htmp : site.tmpDir ∈ names)
include htmp

theorem keeps_changes_document (hground : Ground home d₀) (hp : p.LeadsBeneath home [site.tmpDir]) (s : Text) :
    Keeps (Changes (Beneath home names) S d₀) (Job.writeText p s) := by
  have hleads : p.LeadsBeneath home names := hp.mono (by simpa using htmp)
  exact Keeps.change fun _ _ hwrite h => h.trans (Disk.changes_writeBytes_beneath hground.plain hleads hwrite)

theorem keeps_changes_make (hplaced : Placed site home) (hground : Ground home d₀) :
    Keeps (Changes (Beneath home names) S d₀) (Job.changeBySteps (·.ensureDirectories site.tmpRoot)) := by
  have hleads : site.tmpRoot.LeadsBeneath home names := hplaced.tmpRoot.mono (by simpa using htmp)
  exact Keeps.changeBySteps fun _ h => h.trans (Disk.changes_ensureDirectories_beneath (hground.step h) hleads)

end

theorem tmpDir_mem_outputNames (site : Site) : site.tmpDir ∈ outputNames site := by simp [outputNames]

theorem keeps_touches_make (hplaced : Placed site home) (hground : Ground home d₀) :
    Keeps (Touches site home S d₀) (Job.changeBySteps (·.ensureDirectories site.tmpRoot)) :=
  keeps_changes_make (tmpDir_mem_outputNames site) hplaced hground

theorem keeps_touches_remove (hplaced : Placed site home) (hground : Ground home d₀) :
    Keeps (Touches site home S d₀) (Job.changeBySteps (·.removeTree site.tmpRoot)) := by
  have hleads : site.tmpRoot.LeadsBeneath home (outputNames site) := hplaced.tmpRoot.mono (by simp [outputNames])
  exact Keeps.changeBySteps fun _ h => h.trans (Disk.changes_removeTree_beneath hground.plain hleads)

/-! ## Builds -/

/-- The script entry of a page that a build finds stands at a location. -/
def ScriptEntry (site : Site) (w : Workspace) (loc : Location) : Prop :=
  ∃ item ∈ pagesFound site w, ∃ path ∈ item.2.script, path.resolve w.disk.here = loc

theorem writesPage_changes {names : List Text} (htmp : site.tmpDir ∈ names) (hplaced : Placed site home)
    (hground : Ground home d₀) {w : Workspace} (hsame : w.disk.here = d₀.here) (hsound : FileTree.Sound w.disk.tree)
    {item : Text × Page} (hitem : item ∈ pagesFound site w) :
    WritesPage site (Changes (Beneath home names) (ScriptEntry site w) d₀) item.2 := by
  obtain ⟨-, hfound⟩ := mem_pagesFound hitem
  refine ⟨fun path hpath s => ?_, fun s => ?_⟩
  · obtain ⟨hspelling, _⟩ := hfound.script path hpath
    have habsolute : path.anchor ≠ .here := by
      rw [hspelling]
      exact Path.anchor_join (Path.anchor_join (Path.anchor_join hplaced.absolute_root _) _) _
    have hspelt : path.Spelt := by
      rw [hspelling, Site.pagesRoot, hplaced.root]
      exact (((spelt_ofLocation hground.plain).join _).join _).join _
    refine Keeps.change fun d d' hwrite h => h.trans ?_
    refine Disk.changes_writeBytes_resolve habsolute hspelt ⟨item, hitem, path, hpath, ?_⟩ hwrite
    rw [h.here, hsame]
  · exact keeps_changes_document htmp hground (Placed.pageFile hplaced.tmpRoot (fileName_route hplaced hsound hfound)) s

theorem writesPage_touches (hplaced : Placed site home) (hground : Ground home d₀) {w : Workspace}
    (hsame : w.disk.here = d₀.here) (hsound : FileTree.Sound w.disk.tree) {item : Text × Page}
    (hitem : item ∈ pagesFound site w) : WritesPage site (Touches site home (ScriptEntry site w) d₀) item.2 :=
  writesPage_changes (tmpDir_mem_outputNames site) hplaced hground hsame hsound hitem

/-- However a build by copying ends, it touches nothing but its output and temporary directories and the
script entries of the pages that it finds once the output directory is emptied. -/
theorem touches_run (bundlers : Bundlers) (given : Option Variables) (bundler : Option Bundler) (w : Workspace)
    (hplaced : Placed site home) (hground : Ground home w.disk)
    (hcopy : Selects bundlers site bundler copyBundler) :
    Touches site home (ScriptEntry site (outcome (prepare bundlers site given bundler) w).2) w.disk
      (outcome (run bundlers site given bundler) w).2.disk := by
  have hprepare : Keeps (Touches site home Nowhere w.disk) (prepare bundlers site given bundler) :=
    keeps_prepare ((lasting_touches hground).emptyOutput hplaced)
  have hprepared := hprepare w (Changes.refl _ _ w.disk)
  rw [outcome_run]
  rcases hrun : outcome (prepare bundlers site given bundler) w with ⟨e | ⟨tree, b⟩, w₁⟩
  · rw [hrun] at hprepared
    exact hprepared.widen fun _ h => h
  · rw [hrun] at hprepared
    have hb : b = copyBundler := hcopy.eq_of_prepare hrun
    subst hb
    have hsound : FileTree.Sound w₁.disk.tree := (hprepared.ground hground).sound
    have hwide : Touches site home (ScriptEntry site w₁) w.disk w₁.disk := hprepared.widen fun _ h => h
    exact disk_runStages tree hwide (keeps_touches_make hplaced hground)
      (fun item hitem => writesPage_touches hplaced hground hprepared.here hsound hitem)
      ((lasting_touches hground).steps hplaced (keeps_touches_remove hplaced hground) (fileName_routes hplaced hsound))

/-- However a build by copying ends, what stands outside its output and temporary directories stands as
before, but for the script entries of the pages that it finds once the output directory is emptied. -/
theorem run_touches_outputs (bundlers : Bundlers) (site : Site) (given : Option Variables)
    (bundler : Option Bundler) (w : Workspace) (home : Location) (hplaced : Placed site home)
    (hground : Ground home w.disk) (hcopy : Selects bundlers site bundler copyBundler) (loc : Location)
    (hout : ¬ home ++ [site.outDir] <+: loc) (htmp : ¬ home ++ [site.tmpDir] <+: loc)
    (hscript : ¬ ScriptEntry site (outcome (prepare bundlers site given bundler) w).2 loc) :
    entryAt loc (outcome (run bundlers site given bundler) w).2.disk.tree = entryAt loc w.disk.tree := by
  have houtside : ¬ Beneath home (outputNames site) loc := by
    rintro ⟨name, hname, hbelow⟩
    rcases List.mem_pair.1 hname with rfl | rfl
    · exact hout hbelow
    · exact htmp hbelow
  exact (touches_run bundlers given bundler w hplaced hground hcopy).entry loc houtside hscript

/-! ## A build of one page -/

/-- A project of one page with a script, beside the results of an earlier build. -/
def pageProject : Workspace :=
  let home : Location := ["project".toList]
  let page : Location := home ++ ["src".toList, "app".toList, "home".toList]
  ⟨{ tree := [([], .directory), (home, .directory), (home ++ ["src".toList], .directory),
      (home ++ ["src".toList, "app".toList], .directory), (page, .directory),
      (page ++ ["page.html".toList], .file [] (.seconds 0)), (page ++ ["main.ts".toList], .file [] (.seconds 0)),
      (home ++ ["dist".toList], .directory), (home ++ ["dist".toList, "old.html".toList], .file [] (.seconds 0))],
     here := home, clock := 0 }, []⟩

/-- The page of that project, with its script entry. -/
def onlyPage : Page where
  route := "index".toList
  name := "home".toList
  fragment := .ofLocation ["project".toList, "src".toList, "app".toList, "home".toList, "page.html".toList]
  script := some (.ofLocation ["project".toList, "src".toList, "app".toList, "home".toList, "main.ts".toList])

theorem pagesFound_pageProject :
    pagesFound emptySite (outcome (prepare [] emptySite (some []) (some copyBundler)) pageProject).2 =
      [("index".toList, onlyPage)] := by
  cbv

/-- The fragment of the page, which is not its script entry, is left alone. -/
theorem run_touches_outputs_page :
    let loc : Location := ["project".toList, "src".toList, "app".toList, "home".toList, "page.html".toList]
    entryAt loc (outcome (run [] emptySite (some []) (some copyBundler)) pageProject).2.disk.tree =
      some (.file [] (.seconds 0)) := by
  have hplaced : Placed emptySite ["project".toList] :=
    ⟨rfl, by decide, by decide, by decide, by decide⟩
  have hground : Ground ["project".toList] pageProject.disk := ⟨by decide, by decide, by decide⟩
  have hscript : ¬ ScriptEntry emptySite
      (outcome (prepare [] emptySite (some []) (some copyBundler)) pageProject).2
      ["project".toList, "src".toList, "app".toList, "home".toList, "page.html".toList] := by
    rintro ⟨item, hitem, path, hpath, hresolve⟩
    rw [pagesFound_pageProject, List.mem_singleton] at hitem
    subst hitem
    cases hpath
    rw [Path.resolve_ofLocation (by decide)] at hresolve
    exact absurd hresolve (by decide)
  exact run_touches_outputs [] emptySite (some []) (some copyBundler) pageProject ["project".toList] hplaced hground
    rfl _ (by decide) (by decide) hscript

end Sitewright.Build
