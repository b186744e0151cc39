import Sitewright.Proofs.Build.Equation
/-!
# What a build publishes

A build that succeeds publishes each page as what the page gives on its own. So two builds of projects that differ in
the fragment of one page only publish the same of every other page, as long as the script entries come out the same:
a page may link the script entry of another one.

* `Others`: what a project holds for other pages than one.

Main statement: `run_publishes_pages`.
-/
set_option autoImplicit false

namespace Sitewright

open FileTree (contentAt)

namespace Disk

variable {S : Location → Prop} {d d' : Disk} {home : Location}

theorem Alike.exists_mem (h : Alike S d d') {item : Location × Entry} (hitem : item ∈ d'.tree) :
    ∃ other ∈ d.tree, other.1 = item.1 := by
  have hkind := FileTree.mem_keys.1 (List.mem_map_of_mem hitem)
  rw [h.kind] at hkind
  exact List.mem_map.1 (FileTree.mem_keys.2 hkind)

theorem Alike.ground (h : Alike S d d') (hground : Ground home d) : Ground home d' := by
  refine ⟨hground.plain, ⟨h.once', fun item hitem => ?_⟩, (h.isDirectory_eq _).trans hground.standing⟩
  obtain ⟨other, hother, hsame⟩ := h.exists_mem hitem
  exact hsame ▸ hground.sound.plain other hother

theorem Alike.attached (h : Alike S d d') (hattached : d.tree.Attached) : d'.tree.Attached := by
  intro item hitem hne
  obtain ⟨other, hother, hsame⟩ := h.exists_mem hitem
  rw [← FileTree.kindAt_eq_directory, h.kind, FileTree.kindAt_eq_directory, ← hsame]
  exact hattached other hother (hsame ▸ hne)

theorem contentAt_of_readBytes {loc : Location} {bytes : Bytes} (hloc : PlainNames loc)
    (h : d.readBytes (.ofLocation loc) = .ok bytes) : contentAt loc d.tree = some (some bytes) := by
  obtain ⟨l, stamp, hplace⟩ := place_of_readBytes h
  have hl : l = loc := location_ofLocation hloc hplace
  subst hl
  rw [contentAt, entryAt_of_place hloc.straight hplace]
  rfl

end Disk

namespace Build

open Disk (Alike AlikeOutside Ground)
open Job (outcome)
open Reading (textIn)
open Component (Reaches)

variable {site : Site} {home loc : Location} {d d₁ d' : Disk} {w' : Workspace} {tree : Variables} {l : Log}
  {bundlers : Bundlers} {bundler : Option Bundler} {built : Built} {made : Artifacts} {S : Location → Prop}
  {page : Page} {pages : Keyed Page}

/-! ## Other pages -/

/-- What a project holds for the other pages, and the script entries of all, which are made anew. -/
def Others (site : Site) (home : Location) (pages : Keyed Page) (page : Page) : Location → Prop := fun loc =>
  (∃ other ∈ pages, other.2 ≠ page ∧ loc = fragmentAt site home other.2) ∨ Scripts pages loc

theorem endsIn_others (hsite : Usual site home) (hground : Ground home d) (hpages : AllFound site d pages) :
    EndsIn (pageNames site) (Others site home pages page) := by
  rintro loc (⟨other, -, -, rfl⟩ | hscript)
  · exact ⟨_, site.pageFile, by simp [pageNames], rfl⟩
  · exact unread_scripts hsite hground hpages loc hscript

/-- The fragment of a page is not among what is held for the others. -/
theorem textIn_fragment_others (hsite : Usual site home) (hground : Ground home d) {item : Text × Page}
    (hitem : item ∈ pagesFound site ⟨d, l⟩)
    (halike : Alike (Others site home (pagesFound site ⟨d, l⟩) item.2) d d') :
    textIn d' item.2.fragment = textIn d item.2.fragment := by
  have hall : AllFound site d (pagesFound site ⟨d, l⟩) := fun other hother => (mem_pagesFound hother).2
  obtain ⟨hfragment, hplain⟩ := fragment_of_found hsite hground (hall item hitem)
  rw [hfragment]
  refine Reading.textIn_congr (halike.readBytes_eq ?_)
  rw [Path.resolve_plain hplain]
  rintro (⟨other, hother, hne, hsame⟩ | hscript)
  · have hname : other.2.name = item.2.name :=
      (List.singleton_inj.1 (List.append_cancel_left (List.append_cancel_right hsame))).symm
    obtain ⟨-, hdistinct⟩ := nodup_pagesFound site ⟨d, l⟩
    exact (hdistinct item hitem other hother fun hc => hne (congrArg Prod.snd hc)).2 hname
  · refine not_of_endsIn (endsIn_scripts hsite hground hall) ?_ _ hscript
    rw [hsite.pageFile, hsite.pageScript]
    decide

theorem ne_fragmentAt (hsite : Usual site home) {p : Path} (h : List.elem p.suffix bundledSuffixes = true)
    (here : Location) : p.resolve here ≠ fragmentAt site home page := by
  have hne : ∀ {name : Text}, List.elem (Path.cutSuffix name).2 bundledSuffixes = false → p.name ≠ name := by
    rintro name hname rfl
    rw [Path.suffix, hname] at h
    cases h
  obtain ⟨dir, hdir⟩ := Path.exists_resolve_eq (hne (by decide)) (hne (by decide)) here
  intro hc
  rw [hdir, fragmentAt, hsite.pageFile] at hc
  exact hne (by decide) (List.singleton_inj.1 (List.append_inj_right' hc rfl))

section

variable (hsite : Usual site home) (hS : EndsIn (pageNames site) S) (halike : Alike S d d')
  (hfragment : textIn d' page.fragment = textIn d page.fragment)
include hsite hS halike hfragment

theorem assembleFile_alike (l : Log) : (Assembly.assembleFile site tree page true).outcome d' l =
    (Assembly.assembleFile site tree page true).outcome d l := by
  unfold Assembly.assembleFile
  rw [Reading.outcome_bind, Reading.outcome_bind, Reading.outcome_textOf, Reading.outcome_textOf, hfragment]
  cases textIn d page.fragment with
  | error e => rfl
  | ok fragment => exact outcome_assemble_alike hsite hS halike tree page.name fragment true l

/-- Whether a page refers to the directories that a build works in is decided by what its assembly looks at. -/
theorem Refrains.alike (h : Refrains site home tree d page) : Refrains site home tree d' page := by
  have hreaches : ∀ {s t : Text}, Reaches site d' s t → Reaches site d s t := fun ht =>
    ht.of_agree fun t _ => agree_of_alike hsite hS halike.symm t
  have hlayout : textIn d' site.layoutFile = textIn d site.layoutFile := by
    obtain ⟨hname, hne⟩ := hsite.layout_unread
    rw [hsite.layoutFile_eq]
    exact Reading.textIn_congr (readBytes_join_alike halike hS hname hne _)
  refine ⟨fun fragment hread t ht => ?_, fun fragment hread document hdocument t ht => ?_, fun html hhtml => ?_⟩
  · rw [hfragment] at hread
    exact h.parts fragment hread t (hreaches ht)
  · rw [hfragment] at hread
    rw [Assembly.composed_agree hlayout] at hdocument
    exact h.components fragment hread document hdocument t (hreaches ht)
  · rw [assembleFile_alike hsite hS halike hfragment] at hhtml
    exact h.references html hhtml

end

namespace Succeeds

variable {w₁ w₂ w₃ v₁ v₂ v₃ v' : Workspace} {outputs outputs' : List Path} {item : Text × Page} {d₁' : Disk}
  {made' : Artifacts}

theorem found_eq (h : Succeeds site home tree l d d₁ made w₁ w₂ w₃ w' outputs) (hsite : Usual site home) :
    pagesFound site ⟨d₁, l⟩ = pagesFound site ⟨d, l⟩ :=
  pagesFound_changes hsite h.emptied.ground h.emptied.change l

theorem outside (h : Succeeds site home tree l d d₁ made w₁ w₂ w₃ w' outputs) (hsite : Usual site home) :
    AlikeOutside (Workplace site home) (Scripts (pagesFound site ⟨d, l⟩)) d w'.disk := by
  obtain ⟨htouches, -, -⟩ := h.emptied.materializeSite hsite h.materialized
  have hend : Touches site home (ScriptEntry site ⟨d₁, l⟩) d₁ w'.disk :=
    htouches.trans ((h.works hsite).widen fun _ hl => hl)
  refine (h.emptied.outside hsite hend).mono ?_
  rintro loc - ⟨item, hitem, path, hpath, rfl⟩
  obtain ⟨rfl, hplain, -⟩ := script_of_found hsite h.emptied.ground' (mem_pagesFound hitem).2 hpath
  rw [Path.resolve_plain hplain]
  exact ⟨item, h.found_eq hsite ▸ hitem, hpath⟩

/-- What a build makes of a page does not depend on the other pages, if the script entries come out the same. -/
theorem independent (h : Succeeds site home tree l d d₁ made w₁ w₂ w₃ w' outputs)
    (h' : Succeeds site home tree l d' d₁' made' v₁ v₂ v₃ v' outputs') (hsite : Usual site home)
    (hitem : item ∈ pagesFound site ⟨d, l⟩) (hrefrains : Refrains site home tree d item.2)
    (halike : Alike (Others site home (pagesFound site ⟨d, l⟩) item.2) d d')
    (hscripts : ∀ loc, Scripts (pagesFound site ⟨d, l⟩) loc →
      contentAt loc v'.disk.tree = contentAt loc w'.disk.tree) :
    v'.disk.readBytes (.ofLocation (outputAt site home (fileOf item.1))) =
      w'.disk.readBytes (.ofLocation (outputAt site home (fileOf item.1))) := by
  have hfound : pagesFound site ⟨d', l⟩ = pagesFound site ⟨d, l⟩ := by
    unfold pagesFound
    rw [outcome_discover_alike halike l]
  have hitem₁ : item ∈ pagesFound site ⟨d₁, l⟩ := by rwa [h.found_eq hsite]
  have hitem₁' : item ∈ pagesFound site ⟨d₁', l⟩ := by rwa [h'.found_eq hsite, hfound]
  have hall : AllFound site d (pagesFound site ⟨d, l⟩) := fun other hother => (mem_pagesFound hother).2
  have hunread : EndsIn (pageNames site) (Others site home (pagesFound site ⟨d, l⟩) item.2) :=
    endsIn_others hsite h.emptied.ground hall
  have hfragment := textIn_fragment_others hsite h.emptied.ground hitem halike
  obtain ⟨base, html, hbase, hhtml, hread⟩ := h.page_eq hsite hitem₁ hrefrains
  obtain ⟨base', html', hbase', hhtml', hread'⟩ :=
    h'.page_eq hsite hitem₁' (hrefrains.alike hsite hunread halike hfragment)
  rw [hbase] at hbase'
  cases hbase'
  rw [assembleFile_alike hsite hunread halike hfragment, hhtml] at hhtml'
  cases hhtml'
  have hsame : AlikeOutside (Workplace site home)
      (fun loc => ∃ other ∈ pagesFound site ⟨d, l⟩, other.2 ≠ item.2 ∧ loc = fragmentAt site home other.2)
      w'.disk v'.disk := by
    have hwide := (((h.outside hsite).mono fun _ _ hl => .inr hl).symm.trans halike.outside).trans
      ((h'.outside hsite).mono fun _ _ hl => .inr (hfound ▸ hl))
    refine ⟨hwide.kind, fun loc hout hne => ?_⟩
    by_cases hscript : Scripts (pagesFound site ⟨d, l⟩) loc
    · exact hscripts loc hscript
    · exact hwide.content loc hout fun hc => hc.elim hne hscript
  have hreferences := hrefrains.references html hhtml
  rw [hread, hread', bundledText_congr hsame hsite.placed.absolute_root not_beneath_nil hreferences]
  rintro found - hsuffix ⟨other, -, -, hc⟩
  exact ne_fragmentAt hsite hsuffix _ hc

end Succeeds

/-! ## Builds -/

/-- A build that succeeds has published every page that it has found as what the page gives on its own: assembled,
with its line ends normalised, its references to files replaced by references to bundled ones, its addresses rooted,
and the shared stylesheet linked. Files are looked up as they are once the script entries have been made anew, which
is how they are in the end. Unless the public directory holds a directory with the name of the temporary one, these
pages are all that is published. No page depends on the fragment of another one, as long as the script entries come
out the same. -/
theorem run_publishes_pages (bundlers : Bundlers) (site : Site) (home : Location) (bundler : Option Bundler)
    (tree : Variables) (l : Log) (d : Disk) (built : Built) (w' : Workspace) (hsite : Usual site home)
    (hpublic : site.publicDir = "public".toList) (hground : Ground home d) (hattached : d.tree.Attached)
    (hcopy : Selects bundlers site bundler copyBundler)
    (hrun : outcome (run bundlers site (some tree) bundler) ⟨d, l⟩ = (.ok built, w')) :
    ∃ pages, ((Page.discover site).outcome d l).1 = .ok pages ∧ built.routes = Keyed.keys pages ∧
      (∀ item ∈ pages, Refrains site home tree d item.2 →
        (∃ base html, site.baseUrl = .text base ∧
          ((Assembly.assembleFile site tree item.2 true).outcome d []).1 = .ok html ∧
          w'.disk.readBytes (site.outRoot.child (fileOf item.1)) =
            .ok (Utf8.encode (publishedText site base (bundledText site w'.disk (Newline.normalize html))))) ∧
        (∀ path ∈ item.2.script, ∃ script, ((entryOf site item.2).outcome d []).1 = .ok script ∧
          w'.disk.readBytes path = .ok (Utf8.encode script)) ∧
        ∀ d' built' v', Alike (Others site home pages item.2) d d' →
          outcome (run bundlers site (some tree) bundler) ⟨d', l⟩ = (.ok built', v') →
          (∀ loc, Scripts pages loc → contentAt loc v'.disk.tree = contentAt loc w'.disk.tree) →
          v'.disk.readBytes (site.outRoot.child (fileOf item.1)) =
            w'.disk.readBytes (site.outRoot.child (fileOf item.1))) ∧
      (d.isDirectory (.ofLocation (home ++ [site.publicDir] ++ [site.tmpDir])) ≠ .ok true →
        built.outputs = (Text.sorted ((Keyed.keys pages).map fileOf)).map site.outRoot.child) := by
  obtain ⟨d₁, made, w₁, w₂, w₃, outputs, h, rfl⟩ := exists_of_run_ok hsite hground hattached hcopy hrun
  obtain ⟨pages, hdiscover, hfound⟩ := h.discovered
  have hpages : pagesFound site ⟨d, l⟩ = pages := (h.found_eq hsite).symm.trans hfound
  rw [outcome_discover_changes hsite hground h.emptied.change] at hdiscover
  refine ⟨pages, hdiscover, ?_, fun item hitem hrefrains => ⟨?_, ?_, fun d' built' v' halike hrun' hscripts => ?_⟩,
    fun hfile => ?_⟩
  · rw [← hfound]
    exact (h.made_eq hsite).1
  · rw [outRoot_child hsite]
    exact h.page_eq hsite (hfound ▸ hitem) hrefrains
  · exact h.entry_eq hsite (hfound ▸ hitem) hrefrains
  · obtain ⟨d₁', made', v₁, v₂, v₃, outputs', h', rfl⟩ :=
      exists_of_run_ok hsite (halike.ground hground) (halike.attached hattached) hcopy hrun'
    rw [← hpages] at hitem halike hscripts
    rw [outRoot_child hsite]
    exact h.independent h' hsite hitem hrefrains halike hscripts
  · rw [h.outputs_eq hsite hpublic hfile, hfound]

/-! ## A build of two pages -/

/-- A project of two pages, the first of which links a script; the second one may have been changed. -/
def twoPages (changed : Bool) : Disk :=
  let home : Location := ["project".toList]
  let app : Location := home ++ ["src".toList, "app".toList]
  let info : Text := if changed then "two".toList else "one".toList
  { tree := [([], .directory), (home, .directory), (home ++ ["src".toList], .directory), (app, .directory),
      (app ++ ["layout.html".toList], .file (Utf8.encode "</head><main></main>\r\n".toList) (.seconds 0)),
      (app ++ ["home".toList], .directory),
      (app ++ ["home".toList, "page.html".toList], .file (Utf8.encode "<a href=\"/a.js\">".toList) (.seconds 0)),
      (app ++ ["home".toList, "main.ts".toList], .file [] (.seconds 0)),
      (app ++ ["info".toList], .directory),
      (app ++ ["info".toList, "page.html".toList], .file (Utf8.encode info) (.seconds 0)),
      (home ++ ["a.js".toList], .file (Utf8.encode "b".toList) (.seconds 0))],
    here := home, clock := 0 }

def infoPage : Page where
  route := "info".toList
  name := "info".toList
  fragment := .ofLocation ["project".toList, "src".toList, "app".toList, "info".toList, "page.html".toList]
  script := none

/-- Both pages; the first one stands where the only page of the smaller project does. -/
def bothPages : Keyed Page := [("index".toList, onlyPage), ("info".toList, infoPage)]

def bothMade : Artifacts :=
  ⟨["index".toList, "info".toList].map fun route => (route, pageFile emptySite.tmpRoot route),
    [("index".toList, .ofLocation onlyScript)], [emptySite.tmpRoot]⟩

def bothBuilt : Built :=
  ⟨["index".toList, "info".toList], ["index.html".toList, "info.html".toList].map emptySite.outRoot.child,
    "copy".toList, .text []⟩

def homeAssembled : Text := "</head><main>\n        <a href=\"/a.js\">\n    </main>\n".toList

def homePublished : Text :=
  "    <link rel=\"stylesheet\" crossorigin href=\"./assets/global-style.css\">\n".toList ++
    "</head><main>\n        <a href=\"./assets/a-3e23e816.js\">\n    </main>\n".toList

theorem discover_twoPages (changed : Bool) :
    (Page.discover emptySite).outcome (twoPages changed) [] = (.ok bothPages, []) := by
  cases changed <;> cbv

def twoMade (changed : Bool) : Except Failure Artifacts × Workspace :=
  outcome (materialize emptySite [] bothPages) ⟨twoPages changed, []⟩

def twoBundled (changed : Bool) : Except Failure Bundled × Workspace :=
  outcome (bundleByCopying emptySite bothMade) (twoMade changed).2

def twoPublished (changed : Bool) : Except Failure (List Path) × Workspace :=
  outcome (["index.html".toList, "info.html".toList].mapM (publishPage emptySite emptySite.baseUrl))
    (twoBundled changed).2

theorem list_twoBundled (changed : Bool) : (twoBundled changed).2.disk.list emptySite.bundledRoot =
    .ok ["index.html".toList, "info.html".toList] := by
  have hroot : emptySite.bundledRoot = .ofLocation ["project".toList, "dist".toList, "pages".toList] := by decide
  have hstands : ∀ changed, ((twoBundled changed).2.disk.isDirectory
      (.ofLocation ["project".toList, "dist".toList, "pages".toList])).toOption = some true := by decide +kernel
  have hnames : ∀ changed, FileTree.names ["project".toList, "dist".toList, "pages".toList]
      (twoBundled changed).2.disk.tree = ["index.html".toList, "info.html".toList] := by decide +kernel
  have hsorted : Text.sorted ["index.html".toList, "info.html".toList] = ["index.html".toList, "info.html".toList] :=
    List.mergeSort_of_pairwise (by decide)
  have hdir := Disk.place_of_isDirectory (by decide) (Reading.eq_ok_of_toOption (hstands changed))
  rw [hroot, Disk.list, hdir]
  simp only
  rw [hnames, hsorted]

set_option maxRecDepth 10000 in
theorem outcome_run_twoPages (changed : Bool) :
    (outcome (run [] emptySite (some []) (some copyBundler)) ⟨twoPages changed, []⟩).1 = .ok bothBuilt := by
  have hprepared : outcome (prepare [] emptySite (some []) (some copyBundler)) ⟨twoPages changed, []⟩ =
      (.ok ([], copyBundler), ⟨twoPages changed, []⟩) := by cases changed <;> rfl
  have hmade : ∀ changed, (twoMade changed).1.toOption = some bothMade := by decide +kernel
  have hbundled : ∀ changed, (twoBundled changed).1.toOption = some ⟨"copy".toList,
      ["index".toList, "info".toList].map fun route => (route, pageFile emptySite.bundledRoot route),
      [(assetsRoot emptySite).child "a-3e23e816.js".toList]⟩ := by decide +kernel
  have hpublished : ∀ changed, (twoPublished changed).1.toOption = some bothBuilt.outputs := by decide +kernel
  have hcleaned : ∀ changed,
      (outcome (cleanUp emptySite (some bothMade)) (twoPublished changed).2).1.toOption = some () := by decide +kernel
  have hmaterialized : outcome (materializeSite emptySite []) ⟨twoPages changed, []⟩ =
      (.ok bothMade, (twoMade changed).2) := by
    unfold materializeSite
    rw [Job.outcome_bind, Job.outcome_look]
    simp only [discover_twoPages]
    exact Job.outcome_eq_of_toOption (hmade changed)
  have hpublish : outcome (publish emptySite emptySite.baseUrl) (twoBundled changed).2 =
      (.ok bothBuilt.outputs, (twoPublished changed).2) := by
    rw [outcome_publish_of_list (list_twoBundled changed)]
    exact Job.outcome_eq_of_toOption (hpublished changed)
  rw [outcome_run, hprepared]
  simp only
  rw [outcome_runStages_ok hmaterialized (Job.outcome_eq_of_toOption (hbundled changed)) hpublish
    (Job.outcome_eq_of_toOption (hcleaned changed))]
  rfl

theorem assembleFile_home (changed : Bool) :
    ((Assembly.assembleFile emptySite [] onlyPage true).outcome (twoPages changed) []).1 = .ok homeAssembled := by
  have h : ∀ changed, ((Assembly.assembleFile emptySite [] onlyPage true).outcome (twoPages changed) []).1.toOption =
      some homeAssembled := by decide +kernel
  exact Reading.eq_ok_of_toOption (h changed)

theorem marks_home : Scan.marks rootedReference (Newline.normalize homeAssembled) =
    [⟨"href".toList, "/a.js".toList⟩] := by decide +kernel

theorem refrains_home (changed : Bool) : Refrains emptySite ["project".toList] [] (twoPages changed) onlyPage := by
  have hread : ∀ changed,
      (textIn (twoPages changed) onlyPage.fragment).toOption = some "<a href=\"/a.js\">".toList := by
    decide +kernel
  have hcomposed : ∀ changed, ((Assembly.composed emptySite onlyPage.name true "<a href=\"/a.js\">".toList).outcome
      (twoPages changed) []).1.toOption = some homeAssembled := by decide +kernel
  have hnothing : ∀ s ∈ ["<a href=\"/a.js\">".toList, homeAssembled], ∀ t,
      ¬ Reaches emptySite (twoPages changed) s t := by
    have htokens : ∀ s ∈ ["<a href=\"/a.js\">".toList, homeAssembled], Component.tokens emptySite s = [] := by
      decide +kernel
    rintro s hs t ⟨t₀, ht₀, -⟩
    rw [htokens s hs] at ht₀
    exact absurd ht₀ List.not_mem_nil
  have hfragment := Reading.eq_ok_of_toOption (hread changed)
  refine ⟨fun fragment h t ht => ?_, fun fragment h document hdocument t ht => ?_, fun html hhtml found hfound _ => ?_⟩
  · rw [hfragment] at h
    cases h
    exact absurd ht (hnothing _ (by simp) t)
  · rw [hfragment] at h
    cases h
    rw [Reading.eq_ok_of_toOption (hcomposed changed)] at hdocument
    cases hdocument
    exact absurd ht (hnothing _ (by simp) t)
  · rw [assembleFile_home] at hhtml
    cases hhtml
    rw [marks_home, List.mem_singleton] at hfound
    subst hfound
    have hfile : sourceOf emptySite "/a.js".toList = .ofLocation (["project".toList] ++ ["a.js".toList]) := by decide
    rw [hfile]
    exact Path.not_enters_ofLocation (by decide) (spares_beneath_of_not_mem (by decide) [])

theorem eq_of_scripts_bothPages (h : Scripts bothPages loc) : loc = onlyScript := by
  obtain ⟨item, hitem, hpath⟩ := h
  rcases List.mem_pair.1 hitem with rfl | rfl
  · exact (congrArg Path.parts (Option.some.inj hpath)).symm
  · cases hpath

theorem alike_twoPages :
    Alike (Others emptySite ["project".toList] bothPages onlyPage) (twoPages false) (twoPages true) := by
  let info : Location := ["project".toList, "src".toList, "app".toList, "info".toList, "page.html".toList]
  have htree : (twoPages true).tree =
      FileTree.put info (.file (Utf8.encode "two".toList) (.seconds 0)) (twoPages false).tree := by decide
  have hcontent : ∀ loc, loc ≠ info → contentAt loc (twoPages true).tree = contentAt loc (twoPages false).tree := by
    intro loc hloc
    rw [htree, FileTree.contentAt_put_of_ne hloc]
  refine ⟨rfl, (by decide : ((twoPages false).tree.map Prod.fst).Nodup),
    (by decide : ((twoPages true).tree.map Prod.fst).Nodup), fun loc => ?_,
    fun loc hloc => hcontent loc fun hc => ?_⟩
  · by_cases hloc : loc = info
    · rw [hloc]
      decide
    · rw [FileTree.kindAt, FileTree.kindAt, hcontent loc hloc]
  · exact hloc (.inl ⟨("info".toList, infoPage), by simp [bothPages], by decide, hc⟩)

/-- The first page is published with the fingerprint of its script in its link and with a link to the shared
stylesheet, whatever the second page holds. -/
theorem run_publishes_two_pages :
    let build (changed : Bool) := outcome (run [] emptySite (some []) (some copyBundler)) ⟨twoPages changed, []⟩
    let page := emptySite.outRoot.child "index.html".toList
    (build false).1 = .ok bothBuilt ∧ (build false).2.disk.readBytes page = .ok (Utf8.encode homePublished) ∧
      bothBuilt.outputs = (Text.sorted ["index.html".toList, "info.html".toList]).map emptySite.outRoot.child ∧
      (build true).2.disk.readBytes page = (build false).2.disk.readBytes page := by
  intro build page
  have hground : ∀ changed, Ground ["project".toList] (twoPages changed) := by
    intro changed
    cases changed <;> exact ⟨by decide, by decide, by decide⟩
  have hattached : ∀ changed, (twoPages changed).tree.Attached := by decide
  have hrun : ∀ changed, build changed = (.ok bothBuilt, (build changed).2) := fun changed =>
    Prod.ext (outcome_run_twoPages changed) rfl
  have hpages := fun changed => run_publishes_pages [] emptySite ["project".toList] (some copyBundler) [] []
    (twoPages changed) bothBuilt (build changed).2 usual_emptySite rfl (hground changed) (hattached changed) rfl
    (hrun changed)
  -- the script entry comes out the same
  have hscript : ∀ changed,
      contentAt onlyScript (build changed).2.disk.tree = some (some (Utf8.encode (readyScript []))) := by
    intro changed
    obtain ⟨pages, hdiscover, -, hitems, -⟩ := hpages changed
    rw [discover_twoPages] at hdiscover
    cases hdiscover
    obtain ⟨-, hentries, -⟩ := hitems ("index".toList, onlyPage) (by simp [bothPages]) (refrains_home changed)
    obtain ⟨script, hscript, hread⟩ := hentries _ rfl
    have hentry : ∀ changed, ((entryOf emptySite onlyPage).outcome (twoPages changed) []).1.toOption =
        some (readyScript []) := by decide +kernel
    rw [Reading.eq_ok_of_toOption (hentry changed)] at hscript
    cases hscript
    exact Disk.contentAt_of_readBytes (by decide) hread
  obtain ⟨pages, hdiscover, -, hitems, houtputs⟩ := hpages false
  rw [discover_twoPages] at hdiscover
  cases hdiscover
  obtain ⟨⟨base, html, hbase, hhtml, hread⟩, -, hother⟩ :=
    hitems ("index".toList, onlyPage) (by simp [bothPages]) (refrains_home false)
  rw [assembleFile_home] at hhtml
  cases hbase
  cases hhtml
  -- the script that the page links is found in the end as it was found in the beginning
  have hlook : bundledText emptySite (build false).2.disk (Newline.normalize homeAssembled) =
      bundledText emptySite (twoPages false) (Newline.normalize homeAssembled) := by
    have hselects : Selects [] emptySite (some copyBundler) copyBundler := rfl
    obtain ⟨d₁, made, w₁, w₂, w₃, outputs, h, -⟩ :=
      exists_of_run_ok usual_emptySite (hground false) (hattached false) hselects (hrun false)
    refine bundledText_congr (h.outside usual_emptySite) usual_emptySite.placed.absolute_root not_beneath_nil
      ((refrains_home false).references _ (assembleFile_home false)) fun found hfound _ hc => ?_
    rw [marks_home, List.mem_singleton] at hfound
    subst hfound
    have hfound : pagesFound emptySite ⟨twoPages false, []⟩ = bothPages := by
      rw [pagesFound, discover_twoPages]
      rfl
    rw [hfound] at hc
    exact absurd (eq_of_scripts_bothPages hc) (by decide)
  have hpublished : publishedText emptySite []
      (bundledText emptySite (twoPages false) (Newline.normalize homeAssembled)) = homePublished := by decide +kernel
  have hfile : (twoPages false).isDirectory
      (.ofLocation ["project".toList, "public".toList, "pages".toList]) ≠ .ok true := by
    intro hc
    have hnone : ((twoPages false).isDirectory
        (.ofLocation ["project".toList, "public".toList, "pages".toList])).toOption = some false := by decide
    rw [hc] at hnone
    cases hnone
  refine ⟨outcome_run_twoPages false, ?_, houtputs hfile, ?_⟩
  · rw [hlook, hpublished] at hread
    exact hread
  · refine hother (twoPages true) bothBuilt (build true).2 alike_twoPages (hrun true) fun loc hloc => ?_
    rw [eq_of_scripts_bothPages hloc, hscript, hscript]

end Build
end Sitewright
