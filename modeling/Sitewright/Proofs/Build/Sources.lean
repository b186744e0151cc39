import Sitewright.Proofs.Build.Footprint
import Sitewright.Proofs.Component.Collection
import Sitewright.Proofs.File.Alike
/-!
# What a build depends on

Two projects hold the same but for what an earlier build has left in their output directories and for what the
script entries of their pages hold. A build empties the output directory, which makes them alike but for the
script entries, and makes the script entries anew before anything reads them. From then on the two builds go the
same way.

* `Usual`: a site with the usual names.
* `AtRest`: a project that is not being built.
* `SameSources`: the relation of the two projects.

Main statement: `run_alike`.
-/
set_option autoImplicit false

namespace Sitewright.Build

open FileTree (entryAt contentAt kindAt)
open Disk (Changes Ground Alike Guarded Spares spares_nowhere)
open Job (outcome Keeps Couples CouplesTo)
open Workspace (Matches)

variable {site : Site} {home loc : Location} {d d' : Disk} {S : Location → Prop}

/-! ## Usual sites -/

/-- A site in a directory, with the usual names of what a build works on. -/
structure Usual (site : Site) (home : Location) : Prop where
  root : site.root = .ofLocation home
  pagesDir : site.pagesDir = "src/app".toList
  pageFile : site.pageFile = "page.html".toList
  pageScript : site.pageScript = "main.ts".toList
  layoutPath : site.layoutPath = "src/app/layout.html".toList
  componentMarkup : site.componentMarkup = "index.html".toList
  componentScript : site.componentScript = "script.ts".toList
  tmpDir : site.tmpDir = "pages".toList
  outDir : site.outDir = "dist".toList
  routeName : Path.FileName site.rootRoute
  styleName : Path.FileName site.globalStyleName

def appRoot (home : Location) : Location := home ++ ["src".toList, "app".toList]

namespace Usual

theorem placed (h : Usual site home) : Placed site home where
  root := h.root
  outName := by
    rw [h.outDir]
    decide
  tmpName := by
    rw [h.tmpDir]
    decide
  routeName := h.routeName
  styleName := h.styleName

theorem pagesRoot_eq (h : Usual site home) : site.pagesRoot = .ofLocation (appRoot home) := by
  have hparts : Path.ofText "src/app".toList = ⟨.here, ["src".toList, "app".toList]⟩ := by decide
  rw [Site.pagesRoot, h.root, h.pagesDir, Path.join, hparts]
  rfl

theorem layoutFile_eq (h : Usual site home) : site.layoutFile = site.pagesRoot.join "layout.html".toList := by
  have hparts : Path.ofText "src/app/layout.html".toList =
      ⟨.here, ["src".toList, "app".toList, "layout.html".toList]⟩ := by decide
  have hname : Path.FileName "layout.html".toList := by decide
  rw [h.pagesRoot_eq, hname.join_eq, Site.layoutFile, h.root, h.layoutPath, Path.join, hparts]
  simp [Path.append, Path.child, Path.ofLocation, appRoot]

theorem plain_pageFile (h : Usual site home) : Path.PlainName site.pageFile := by
  rw [h.pageFile]
  decide

theorem plain_pageScript (h : Usual site home) : Path.PlainName site.pageScript := by
  rw [h.pageScript]
  decide

theorem file_eq (h : Usual site home) {name file : Text} (hname : Path.PlainName name) (hfile : Path.PlainName file) :
    (site.pagesRoot.join name).join file = .ofLocation (appRoot home ++ [name] ++ [file]) := by
  rw [h.pagesRoot_eq, hname.join_eq, hfile.join_eq]
  rfl

theorem plainNames_appRoot (hhome : PlainNames home) : PlainNames (appRoot home) := by
  intro part hpart
  rcases List.mem_append.1 hpart with hpart | hpart
  · exact hhome part hpart
  · rcases List.mem_pair.1 hpart with rfl | rfl <;> decide

theorem spares_outputs (h : Usual site home) (rest : List Text) :
    Spares (Beneath home (outputNames site)) (appRoot home ++ rest) := by
  have hne : "src".toList ∉ outputNames site := by
    rw [outputNames, h.outDir, h.tmpDir]
    decide
  have hlist : appRoot home ++ rest = home ++ "src".toList :: "app".toList :: rest := by simp [appRoot]
  rw [hlist]
  exact spares_beneath_of_not_mem hne _

theorem spares_out (h : Usual site home) (rest : List Text) :
    Spares (Beneath home [site.outDir]) (appRoot home ++ rest) :=
  (h.spares_outputs rest).mono fun _ hl => hl.mono (by simp [outputNames])

end Usual

/-! ## The pages -/

/-- A change of the output directory leaves the pages that are found. -/
theorem outcome_discover_changes (hsite : Usual site home) (hground : Ground home d)
    (h : Changes (Beneath home [site.outDir]) Nowhere d d') (l : Log) :
    (Page.discover site).outcome d' l = (Page.discover site).outcome d l := by
  have happ := Usual.plainNames_appRoot hground.plain
  have hroot : Spares (Beneath home [site.outDir]) (appRoot home) := by
    simpa using hsite.spares_out []
  refine Page.outcome_discover_congr ?_ ?_ (fun names hlist name hmem => ?_) l
  · rw [hsite.pagesRoot_eq]
    exact h.isDirectory_at happ hroot (spares_nowhere _)
  · rw [hsite.pagesRoot_eq]
    exact h.list_eq hground.sound happ (fun name => hsite.spares_out [name]) fun _ => spares_nowhere _
  · have hname := Disk.plain_of_list hground.sound hlist name hmem
    have hfile : ∀ {file : Text}, Path.PlainName file →
        d'.isFile (.ofLocation (appRoot home ++ [name] ++ [file])) =
          d.isFile (.ofLocation (appRoot home ++ [name] ++ [file])) := by
      intro file hplain
      refine h.isFile_at ((happ.child hname).child hplain) ?_ (spares_nowhere _)
      rw [List.append_assoc]
      exact hsite.spares_out _
    refine ⟨?_, ?_, ?_⟩
    · rw [hsite.pagesRoot_eq]
      exact h.isDirectory_at (happ.child hname) (hsite.spares_out [name]) (spares_nowhere _)
    · rw [← hname.join_eq, hsite.file_eq hname hsite.plain_pageFile]
      exact hfile hsite.plain_pageFile
    · rw [hsite.file_eq hname hsite.plain_pageScript]
      exact hfile hsite.plain_pageScript

theorem pagesFound_changes (hsite : Usual site home) (hground : Ground home d)
    (h : Changes (Beneath home [site.outDir]) Nowhere d d') (l : Log) :
    pagesFound site ⟨d', l⟩ = pagesFound site ⟨d, l⟩ := by
  unfold pagesFound
  rw [outcome_discover_changes hsite hground h]

theorem outcome_discover_alike (h : Alike S d d') (l : Log) :
    (Page.discover site).outcome d' l = (Page.discover site).outcome d l := by
  refine Page.outcome_discover_congr (h.isDirectory_eq _) (h.list_eq _) (fun names _ name _ => ?_) l
  exact ⟨h.isDirectory_eq _, h.isFile_eq _, h.isFile_eq _⟩

/-- The locations of the script entries of some pages. -/
def Scripts (pages : Keyed Page) : Location → Prop := fun loc => ∃ item ∈ pages, .ofLocation loc ∈ item.2.script

theorem scripts_cons {item : Text × Page} {rest : Keyed Page} (l : Location) (h : Scripts rest l) :
    Scripts (item :: rest) l := by
  obtain ⟨other, hother, hpath⟩ := h
  exact ⟨other, List.mem_cons_of_mem _ hother, hpath⟩

def scriptOf (site : Site) (home : Location) (page : Page) : Location :=
  appRoot home ++ [page.name] ++ [site.pageScript]

theorem script_of_found (hsite : Usual site home) (hground : Ground home d) {page : Page}
    (h : Page.Found site d page) {path : Path} (hpath : path ∈ page.script) :
    path = .ofLocation (scriptOf site home page) ∧ PlainNames (scriptOf site home page) ∧
      d.isFile (.ofLocation (scriptOf site home page)) = .ok true := by
  obtain ⟨names, hlist, hmem⟩ := h.listed
  have hname := Disk.plain_of_list hground.sound hlist _ hmem
  obtain ⟨heq, hfile⟩ := h.script path hpath
  rw [hsite.file_eq hname hsite.plain_pageScript] at heq
  have hplain := (Usual.plainNames_appRoot hground.plain).child hname
  exact ⟨heq, hplain.child hsite.plain_pageScript, heq ▸ hfile⟩

/-- The pages that are found, each with what is known of it. -/
def AllFound (site : Site) (d : Disk) (pages : Keyed Page) : Prop := ∀ item ∈ pages, Page.Found site d item.2

/-! ## What is read of the pages and components -/

/-- All locations of a class end in one of some names. -/
def EndsIn (names : List Text) (S : Location → Prop) : Prop :=
  ∀ loc, S loc → ∃ dir, ∃ name ∈ names, loc = dir ++ [name]

/-- The names of the files of a page, which no assembly and no making of a script entry reads of a component. -/
def pageNames (site : Site) : List Text := [site.pageScript, site.pageFile]

theorem EndsIn.mono {names names' : List Text} (h : EndsIn names S) (hsub : ∀ name ∈ names, name ∈ names') :
    EndsIn names' S := by
  intro loc hloc
  obtain ⟨dir, name, hname, heq⟩ := h loc hloc
  exact ⟨dir, name, hsub name hname, heq⟩

theorem endsIn_scripts (hsite : Usual site home) (hground : Ground home d) {pages : Keyed Page}
    (hpages : AllFound site d pages) : EndsIn [site.pageScript] (Scripts pages) := by
  rintro loc ⟨item, hitem, hpath⟩
  obtain ⟨heq, -, -⟩ := script_of_found hsite hground (hpages item hitem) hpath
  exact ⟨_, site.pageScript, List.mem_singleton_self _, congrArg Path.parts heq⟩

theorem unread_scripts (hsite : Usual site home) (hground : Ground home d) {pages : Keyed Page}
    (hpages : AllFound site d pages) : EndsIn (pageNames site) (Scripts pages) :=
  (endsIn_scripts hsite hground hpages).mono (by simp [pageNames])

theorem not_of_endsIn {names : List Text} (hS : EndsIn names S) {name : Text} (hne : name ∉ names) (dir : Location) :
    ¬ S (dir ++ [name]) := by
  intro hc
  obtain ⟨dir', name', hname', heq⟩ := hS _ hc
  exact hne (List.singleton_inj.1 (List.append_inj_right' heq rfl) ▸ hname')

theorem readBytes_join_alike {names : List Text} (h : Alike S d d') (hS : EndsIn names S) {name : Text}
    (hname : Path.FileName name) (hne : name ∉ names) (p : Path) :
    d'.readBytes (p.join name) = d.readBytes (p.join name) := by
  refine h.readBytes_eq fun hc => ?_
  rw [Path.resolve_join hname] at hc
  exact not_of_endsIn hS hne _ hc

theorem readBytes_fragment_alike (hsite : Usual site home) (hS : EndsIn [site.pageScript] S) (h : Alike S d d')
    {page : Page} {d₀ : Disk} (hfound : Page.Found site d₀ page) :
    d'.readBytes page.fragment = d.readBytes page.fragment := by
  rw [hfound.fragment]
  refine readBytes_join_alike h hS hsite.plain_pageFile.fileName ?_ _
  rw [hsite.pageFile, hsite.pageScript]
  decide

namespace Usual

variable (hsite : Usual site home)
include hsite

theorem markup_unread : Path.FileName site.componentMarkup ∧ site.componentMarkup ∉ pageNames site := by
  rw [pageNames, hsite.componentMarkup, hsite.pageScript, hsite.pageFile]
  decide

theorem script_unread : Path.FileName site.componentScript ∧ site.componentScript ∉ pageNames site := by
  rw [pageNames, hsite.componentScript, hsite.pageScript, hsite.pageFile]
  decide

theorem layout_unread : Path.FileName "layout.html".toList ∧ "layout.html".toList ∉ pageNames site := by
  rw [pageNames, hsite.pageScript, hsite.pageFile]
  decide

end Usual

section

variable (hsite : Usual site home) (hS : EndsIn (pageNames site) S)
include hsite hS

theorem agree_of_alike (h : Alike S d d') (token : Text) : Component.Agree site d d' token := by
  obtain ⟨hname, hne⟩ := hsite.markup_unread
  refine Component.agree_of_files (fun file _ => h.isFile_eq _) fun bytes hbytes => ?_
  rw [readBytes_join_alike h hS hname hne, hbytes]

theorem outcome_entryScript_alike (h : Alike S d d') (fragment : Text) (l : Log) :
    (entryScript site fragment).outcome d' l = (entryScript site fragment).outcome d l := by
  refine entryScript_agree (fun t _ => agree_of_alike hsite hS h t) (fun t _ c hc path hpath => ?_) l
  refine Reading.textIn_congr ?_
  obtain ⟨hname, hne⟩ := hsite.script_unread
  rw [Component.script_of_found hc hpath]
  exact readBytes_join_alike h hS hname hne _

theorem outcome_assemble_alike (h : Alike S d d') (tree : Variables) (page fragment : Text) (strict : Bool) (l : Log) :
    (Assembly.assemble site tree page strict fragment).outcome d' l =
      (Assembly.assemble site tree page strict fragment).outcome d l := by
  refine Assembly.assemble_agree (Reading.textIn_congr ?_) l fun _ _ t _ => agree_of_alike hsite hS h t
  obtain ⟨hname, hne⟩ := hsite.layout_unread
  rw [hsite.layoutFile_eq]
  exact readBytes_join_alike h hS hname hne _

end

/-! ## Materialising alike -/

theorem couplesTo_writeText {S' : Location → Prop} (hloc : PlainNames loc) (hS : ∀ l, S l → l ≠ loc → S' l)
    (hS' : ∀ l, S' l → S l) (s : Text) :
    CouplesTo (Alike S) (Alike S') (Job.writeText (.ofLocation loc) s) := by
  refine CouplesTo.change (fun _ _ hd => hd.mono hS') fun d d' hd => ?_
  refine (hd.writeBytes (.ofLocation loc) (Utf8.encode s)).mono fun _ _ hwritten => hwritten.mono fun l hl => ?_
  have hresolve : (Path.ofLocation loc).resolve d.here = loc := Path.resolve_plain hloc
  rw [hresolve] at hl
  exact hS l hl.1 hl.2

theorem couples_writeText (p : Path) (s : Text) : Couples (Alike S) (Job.writeText p s) := by
  refine Couples.change fun d d' hd => ?_
  exact (hd.writeBytes p (Utf8.encode s)).mono fun _ _ hwritten => hwritten.mono fun _ hl => hl.1

/-- What holds of a disk while the pages that were found on an earlier one are materialised. -/
structure Making (site : Site) (d : Disk) (pages : Keyed Page) (I : Disk → Prop) : Prop where
  found : AllFound site d pages
  writes : ∀ item ∈ pages, WritesPage site I item.2
  standing : ∀ d', I d' → ∀ item ∈ pages, ∀ path ∈ item.2.script, d'.isFile path = .ok true

theorem Making.rest {item : Text × Page} {rest : Keyed Page} {I : Disk → Prop}
    (h : Making site d (item :: rest) I) : Making site d rest I where
  found other hother := h.found other (List.mem_cons_of_mem _ hother)
  writes other hother := h.writes other (List.mem_cons_of_mem _ hother)
  standing d' hd' other hother := h.standing d' hd' other (List.mem_cons_of_mem _ hother)

theorem exists?_of_isFile {p : Path} (h : d.isFile p = .ok true) : d.exists? p = .ok true := by
  obtain ⟨l, bytes, stamp, hp⟩ := Disk.place_of_isFile h
  exact Disk.exists?_of_place hp

section

variable {d₀ : Disk} {I : Disk → Prop} {item : Text × Page} {rest : Keyed Page}
  (hsite : Usual site home) (hground : Ground home d₀) (hmaking : Making site d₀ (item :: rest) I)
include hsite hground hmaking

/-- A script entry is there, so it is made anew, and holds the same on both disks. -/
theorem couplesTo_writeEntry (fragment : Text) :
    CouplesTo (Guarded (Alike (Scripts (item :: rest))) I) (Guarded (Alike (Scripts rest)) I)
      (writeEntry site item.2 fragment) := by
  have hunread := unread_scripts hsite hground hmaking.found
  have hwrites := (hmaking.writes item List.mem_cons_self).script
  unfold writeEntry
  cases hscript : item.2.script with
  | none =>
    refine CouplesTo.pure (fun d d' hd => ⟨hd.1.mono fun l hl => ?_, hd.2⟩) none
    obtain ⟨other, hother, hpath⟩ := hl
    rcases List.mem_cons.1 hother with rfl | hother
    · rw [hscript] at hpath
      cases hpath
    · exact ⟨other, hother, hpath⟩
  | some path =>
    obtain ⟨hpath, hplain, -⟩ := script_of_found hsite hground (hmaking.found item List.mem_cons_self) hscript
    have hexists : CouplesTo (Alike (Scripts (item :: rest))) (Alike (Scripts (item :: rest)))
        (Job.ask (·.exists? path)) := (Couples.ask fun d d' hd => (hd.exists?_eq path).symm).closer
    refine (hexists.guarded (Keeps.ask _)).bind_of (fun _ _ hd => hd) fun there w v w' hwv hthere => ?_
    have hstands : w.disk.exists? path = .ok true :=
      exists?_of_isFile (hmaking.standing w.disk hwv.disk.2 item List.mem_cons_self path hscript)
    rw [Job.outcome_ask, hstands] at hthere
    cases hthere
    simp only [if_true]
    have hread : CouplesTo (Alike (Scripts (item :: rest))) (Alike (Scripts (item :: rest)))
        (Job.look (entryScript site fragment)) :=
      (Couples.look fun d d' l hd => (outcome_entryScript_alike hsite hunread hd fragment l).symm).closer
    refine (hread.guarded (Keeps.look _)).bind (fun _ _ hd => hd) fun script => ?_
    -- the one script on which the disks may have differed is the one that is written
    have hwrite : CouplesTo (Alike (Scripts (item :: rest))) (Alike (Scripts rest)) (Job.writeText path script) := by
      rw [hpath]
      refine couplesTo_writeText hplain (fun l hl hne => ?_) scripts_cons script
      obtain ⟨other, hother, hl⟩ := hl
      rcases List.mem_cons.1 hother with rfl | hother
      · rw [hscript, hpath] at hl
        cases hl
        exact absurd rfl hne
      · exact ⟨other, hother, hl⟩
    refine (hwrite.guarded (hwrites path hscript script)).bind
      (fun _ _ hd => ⟨hd.1.mono scripts_cons, hd.2⟩) fun _ => ?_
    exact CouplesTo.pure (fun _ _ hd => hd) _

theorem couplesTo_materializePage (tree : Variables) :
    CouplesTo (Guarded (Alike (Scripts (item :: rest))) I) (Guarded (Alike (Scripts rest)) I)
      (materializePage site tree item.2) := by
  have hends := endsIn_scripts hsite hground hmaking.found
  have hunread := unread_scripts hsite hground hmaking.rest.found
  unfold materializePage
  have hfragment : CouplesTo (Alike (Scripts (item :: rest))) (Alike (Scripts (item :: rest)))
      (Job.textOf item.2.fragment) := (Couples.textOf fun d d' hd =>
        (readBytes_fragment_alike hsite hends hd (hmaking.found item List.mem_cons_self)).symm).closer
  refine (hfragment.guarded (Keeps.look _)).bind (fun _ _ hd => hd) fun fragment => ?_
  refine (couplesTo_writeEntry hsite hground hmaking fragment).bind (fun _ _ hd => ⟨hd.1.mono scripts_cons, hd.2⟩)
    fun entry => ?_
  have hassemble : CouplesTo (Alike (Scripts rest)) (Alike (Scripts rest))
      (Job.look (Assembly.assemble site tree item.2.name true fragment)) :=
    (Couples.look fun d d' l hd => (outcome_assemble_alike hsite hunread hd tree _ _ _ l).symm).closer
  refine (hassemble.guarded (Keeps.look _)).bind (fun _ _ hd => hd) fun html => ?_
  have hdocument := (hmaking.writes item List.mem_cons_self).document html
  refine ((couples_writeText _ html).closer.guarded hdocument).bind (fun _ _ hd => hd) fun _ => ?_
  exact CouplesTo.pure (fun _ _ hd => hd) _

end

/-- Page by page the script entries stop to differ. -/
theorem couplesTo_materializeAll {d₀ : Disk} {I : Disk → Prop} {pages : Keyed Page} (hsite : Usual site home)
    (hground : Ground home d₀) (hmaking : Making site d₀ pages I) (tree : Variables) (made : Artifacts) :
    CouplesTo (Guarded (Alike (Scripts pages)) I) (Guarded (Alike Nowhere) I)
      (materializeAll site tree pages made) := by
  induction pages generalizing made with
  | nil =>
    refine CouplesTo.pure (fun d d' hd => ⟨hd.1.mono fun l hl => ?_, hd.2⟩) made
    obtain ⟨item, hitem, -⟩ := hl
    exact absurd hitem List.not_mem_nil
  | cons item rest ih =>
    obtain ⟨route, page⟩ := item
    unfold materializeAll
    exact (couplesTo_materializePage hsite hground hmaking tree).bind
      (fun _ _ hd => ⟨hd.1.mono scripts_cons, hd.2⟩) fun files => ih hmaking.rest _

theorem couplesTo_materialize {d₀ : Disk} {I : Disk → Prop} {pages : Keyed Page} (hsite : Usual site home)
    (hground : Ground home d₀) (hmaking : Making site d₀ pages I)
    (hmake : Keeps I (Job.changeBySteps (·.ensureDirectories site.tmpRoot))) (tree : Variables) :
    CouplesTo (Guarded (Alike (Scripts pages)) I) (Guarded (Alike Nowhere) I) (materialize site tree pages) := by
  unfold materialize
  simp only
  split
  · rename_i hempty
    refine ((Couples.note _ _).closer.guarded (Keeps.note _ _)).bind (fun _ _ hd => hd) fun _ => ?_
    refine CouplesTo.pure (fun d d' hd => ⟨hd.1.mono fun l hl => ?_, hd.2⟩) _
    obtain ⟨item, hitem, -⟩ := hl
    rw [List.isEmpty_iff.1 hempty] at hitem
    exact absurd hitem List.not_mem_nil
  · have hcouples : Couples (Alike (Scripts pages)) (Job.changeBySteps (·.ensureDirectories site.tmpRoot)) :=
      Couples.changeBySteps fun d d' hd => hd.ensureDirectories _
    exact (hcouples.closer.guarded hmake).bind (fun _ _ hd => hd) fun _ =>
      couplesTo_materializeAll hsite hground hmaking tree _

theorem making_touches (hsite : Usual site home) (hground : Ground home d) (l : Log) :
    Making site d (pagesFound site ⟨d, l⟩) (Touches site home (ScriptEntry site ⟨d, l⟩) d) where
  found item hitem := (mem_pagesFound hitem).2
  writes item hitem := writesPage_touches hsite.placed hground rfl hground.sound hitem
  standing d' hd' item hitem path hpath := by
    obtain ⟨rfl, hplain, hfile⟩ := script_of_found hsite hground (mem_pagesFound hitem).2 hpath
    have hdir : PlainNames (appRoot home ++ [item.2.name]) := hplain.of_prefix (List.prefix_append _ _)
    refine hd'.isFile_kept hdir hsite.plain_pageScript ?_ (isFile_child hsite.plain_pageScript hfile) hfile
    rw [List.append_assoc]
    exact hsite.spares_outputs _

/-- All pages that a build finds are materialised alike; then no script entry differs any more. -/
theorem materializeSite_alike (hsite : Usual site home) (hground : Ground home d) (l : Log)
    (h : Alike (Scripts (pagesFound site ⟨d, l⟩)) d d') (tree : Variables) :
    (outcome (materializeSite site tree) ⟨d, l⟩).1 = (outcome (materializeSite site tree) ⟨d', l⟩).1 ∧
      Matches (Alike (Scripts (pagesFound site ⟨d, l⟩))) (outcome (materializeSite site tree) ⟨d, l⟩).2
        (outcome (materializeSite site tree) ⟨d', l⟩).2 ∧
      ∀ made w', outcome (materializeSite site tree) ⟨d, l⟩ = (.ok made, w') →
        Matches (Alike Nowhere) w' (outcome (materializeSite site tree) ⟨d', l⟩).2 := by
  have hcouples := couplesTo_materialize hsite hground (making_touches hsite hground l)
    (keeps_touches_make hsite.placed hground) tree
  unfold materializeSite
  rw [Job.outcome_bind, Job.outcome_bind, Job.outcome_look, Job.outcome_look]
  simp only [outcome_discover_alike h]
  rcases hfound : (Page.discover site).outcome d l with ⟨e | pages, l'⟩
  · exact ⟨rfl, ⟨rfl, h⟩, fun made w' hrun => by cases hrun⟩
  · have hpages : pagesFound site ⟨d, l⟩ = pages := by
      unfold pagesFound
      rw [hfound]
      rfl
    rw [hpages] at hcouples h ⊢
    have hstart : Matches (Guarded (Alike (Scripts pages)) (Touches site home (ScriptEntry site ⟨d, l⟩) d))
        ⟨d, l'⟩ ⟨d', l'⟩ := ⟨rfl, h, Changes.refl _ _ d⟩
    obtain ⟨hresult, hmatch⟩ := hcouples.couples _ _ hstart
    refine ⟨hresult, ⟨hmatch.log, hmatch.disk.1⟩, fun made w' hrun => ?_⟩
    have hend := hcouples.success _ _ _ _ hstart hrun
    exact ⟨hend.log, hend.disk.1⟩

/-! ## Bundling and publishing alike -/

theorem steps_alike (site : Site) (routes : List Text) : Steps site routes (Alike Nowhere) where
  answers _ _ hd :=
    ⟨fun p => (hd.isFile_eq p).symm, fun p => (hd.isDirectory_eq p).symm, fun p => (hd.exists?_eq p).symm,
      fun _ => (hd.readBytes_eq id).symm, fun p => (hd.list_eq p).symm, fun p q => (hd.sameEntry_eq p q).symm⟩
  make _ _ := Couples.changeBySteps fun _ _ hd => hd.ensureDirectories _
  remove _ _ := Couples.changeBySteps fun _ _ hd => hd.removeTree _
  merge _ _ hd := hd.copyTree _ _
  style := Couples.change fun _ _ hd => hd.copyBytes _ _
  asset _ bytes := Couples.change fun _ _ hd =>
    (hd.writeBytes _ bytes).mono fun _ _ hwritten => hwritten.mono fun _ hl => hl.1
  bundled _ _ s := couples_writeText _ s
  publish _ _ _ _ _ _ _ _ s := couples_writeText _ s

theorem couples_cleanUp_alike (site : Site) {artifacts : Option Artifacts}
    (hroots : ∀ a ∈ artifacts, a.tmpRoots = [site.tmpRoot]) : Couples (Alike S) (cleanUp site artifacts) :=
  couples_cleanUp hroots fun _ _ => couples_discard (fun _ _ hd => (hd.exists?_eq _).symm)
    (Couples.changeBySteps fun _ _ hd => hd.removeTree _)

/-- Behind the emptying of the output directory two builds end alike. -/
theorem runStages_alike (hsite : Usual site home) (hground : Ground home d) (l : Log)
    (h : Alike (Scripts (pagesFound site ⟨d, l⟩)) d d') (tree : Variables) :
    (outcome (runStages site tree copyBundler) ⟨d, l⟩).1 = (outcome (runStages site tree copyBundler) ⟨d', l⟩).1 ∧
      ∀ built, (outcome (runStages site tree copyBundler) ⟨d, l⟩).1 = .ok built →
        Alike Nowhere (outcome (runStages site tree copyBundler) ⟨d, l⟩).2.disk
          (outcome (runStages site tree copyBundler) ⟨d', l⟩).2.disk := by
  obtain ⟨hresult, hmatch, hdone⟩ := materializeSite_alike hsite hground l h tree
  unfold runStages
  rw [Job.outcome_bind, Job.outcome_bind, Job.outcome_attempt, Job.outcome_attempt]
  rcases hrun : outcome (materializeSite site tree) ⟨d, l⟩ with ⟨r, w⟩
  rcases hrun' : outcome (materializeSite site tree) ⟨d', l⟩ with ⟨q, v⟩
  rw [hrun, hrun'] at hresult
  rw [hrun, hrun'] at hmatch
  simp only at hresult hmatch
  subst hresult
  cases r with
  | error e =>
    have hnone : ∀ a ∈ (none : Option Artifacts), a.tmpRoots = [site.tmpRoot] := fun a ha => by cases ha
    have hclean : Couples (Alike (Scripts (pagesFound site ⟨d, l⟩)))
        (cleanUp site none >>= fun _ => (throw e : Job Built)) :=
      (couples_cleanUp_alike site hnone).bind fun _ => .throw e
    refine ⟨(hclean w v hmatch).1, fun built hbuilt => ?_⟩
    obtain ⟨u, w', -, hthrow⟩ := Job.exists_of_bind_ok (Prod.ext hbuilt rfl)
    cases hthrow
  | ok made =>
    -- all entry scripts have been written, so from here on the disks differ in nothing
    have hclose : Matches (Alike Nowhere) w v := by
      have hend := hdone made w hrun
      rw [hrun'] at hend
      exact hend
    have hroots := (routes_materializeSite hrun).1
    have hrest : Couples (Alike Nowhere) (do
        let outputs ← Job.andFinally (bundleAndPublish site copyBundler made) fun _ => cleanUp site (some made)
        return (⟨made.routes, outputs, copyBundler.name, site.baseUrl⟩ : Built)) := by
      refine Couples.bind (Couples.andFinally (steps_alike site made.routes).bundleAndPublish fun _ => ?_)
        fun _ => .pure _
      refine couples_cleanUp_alike site fun a ha => ?_
      cases ha
      exact hroots
    obtain ⟨hsame, hend⟩ := hrest w v hclose
    exact ⟨hsame, fun _ _ => hend.disk⟩

/-! ## Projects between builds -/

/-- Nothing stands at or below a location. -/
def Cleared (loc : Location) (d : Disk) : Prop := ∀ l, loc <+: l → entryAt l d.tree = none

/-- Nothing but a directory stands at a location: a directory, or nothing at all. -/
def Reserved (loc : Location) (d : Disk) : Prop := Cleared loc d ∨ entryAt loc d.tree = some .directory

/-- A project that is not being built: it has no temporary directory, and nothing but a directory stands in the
place of its output directory. -/
structure AtRest (site : Site) (home : Location) (d : Disk) : Prop where
  ground : Ground home d
  tmp : Cleared (home ++ [site.tmpDir]) d
  out : Reserved (home ++ [site.outDir]) d

/-- Another disk holds the same sources: the same stands on it outside the output directory, but for what the
script entries hold of the pages that are found. -/
structure SameSources (site : Site) (home : Location) (w : Workspace) (d' : Disk) : Prop where
  here : d'.here = w.disk.here
  kind : ∀ loc, ¬ home ++ [site.outDir] <+: loc → kindAt loc d'.tree = kindAt loc w.disk.tree
  content : ∀ loc, ¬ home ++ [site.outDir] <+: loc → ¬ ScriptEntry site w loc →
    contentAt loc d'.tree = contentAt loc w.disk.tree

theorem cleared_pruned (loc : Location) (d : Disk) : Cleared loc (d.pruned loc) := by
  intro l hl
  rw [Disk.entryAt_pruned, if_pos hl]

theorem changes_pruned_beneath (home : Location) (name : Text) (d : Disk) :
    Changes (Beneath home [name]) S d (d.pruned (home ++ [name])) :=
  (Disk.changes_pruned (home ++ [name])).widen fun _ hl => ⟨name, List.mem_singleton_self name, hl⟩

/-- An output directory in whose place nothing but a directory stands can be emptied, and this changes nothing
else. -/
theorem outcome_emptyOutput_reserved (hsite : Usual site home) (hground : Ground home d)
    (hreserved : Reserved (home ++ [site.outDir]) d) (l : Log) :
    ∃ d₁, outcome (emptyOutput site) ⟨d, l⟩ = (.ok (), ⟨d₁, l⟩) ∧
      Changes (Beneath home [site.outDir]) Nowhere d d₁ ∧ Cleared (home ++ [site.outDir]) d₁ := by
  have hplain : Path.PlainName site.outDir := by
    rw [hsite.outDir]
    decide
  have hsize : ¬ Utf8.size site.outDir > FileTree.nameLimit := by
    rw [hsite.outDir]
    decide
  have hloc : PlainNames (home ++ [site.outDir]) := hground.plain.child hplain
  have hout : site.outRoot = .ofLocation (home ++ [site.outDir]) := hsite.placed.outRoot_eq
  have hroot : (Path.ofLocation home).resolve d.here = home := Path.resolve_plain hground.plain
  have hresolve : (Path.ofLocation (home ++ [site.outDir])).resolve d.here = home ++ [site.outDir] :=
    Path.resolve_plain hloc
  have hbeside : ¬ holds (home ++ [site.outDir]) home = true := by
    intro hc
    have hlen := (FileTree.isBelow_iff.1 hc).length_le
    simp at hlen
  have hplace := Disk.place_in_directory hplain hground.plain hground.standing hsize
  unfold emptyOutput
  rw [Job.outcome_bind, Job.outcome_get]
  simp only [hout, hsite.root, hroot, hresolve]
  rw [if_neg hloc.noNul, if_neg hbeside, Job.outcome_bind, Job.outcome_ask]
  rcases hreserved with hclear | hdir
  · rw [hclear _ (List.prefix_refl _)] at hplace
    have hexists : d.exists? (.ofLocation (home ++ [site.outDir])) = .ok false := by
      rw [Disk.exists?, Disk.look_of_vacant hplace]
      rfl
    rw [hexists]
    exact ⟨d, rfl, .refl _ _ d, hclear⟩
  · rw [hdir] at hplace
    rw [Disk.exists?_of_place hplace]
    simp only [Except.mapError, if_true]
    rw [Job.outcome_changeBySteps, Disk.removeTree_directory hloc.straight hplace]
    exact ⟨_, rfl, changes_pruned_beneath home site.outDir d, cleared_pruned _ d⟩

/-- Once their output directories are empty, projects with the same sources are alike but for the script
entries. -/
theorem alike_of_sameSources {d₁ d₁' : Disk} {l : Log} (hsame : SameSources site home ⟨d, l⟩ d')
    (hground : Ground home d) (hground' : Ground home d')
    (h : Changes (Beneath home [site.outDir]) Nowhere d d₁) (hclear : Cleared (home ++ [site.outDir]) d₁)
    (h' : Changes (Beneath home [site.outDir]) Nowhere d' d₁') (hclear' : Cleared (home ++ [site.outDir]) d₁') :
    Alike (ScriptEntry site ⟨d, l⟩) d₁ d₁' := by
  have houtside : ∀ {loc}, ¬ home ++ [site.outDir] <+: loc → ¬ Beneath home [site.outDir] loc := by
    rintro loc hloc ⟨name, hname, hbelow⟩
    rw [List.mem_singleton.1 hname] at hbelow
    exact hloc hbelow
  have hentry : ∀ {loc}, ¬ home ++ [site.outDir] <+: loc → entryAt loc d₁.tree = entryAt loc d.tree ∧
      entryAt loc d₁'.tree = entryAt loc d'.tree := fun hloc =>
    ⟨h.entry _ (houtside hloc) id, h'.entry _ (houtside hloc) id⟩
  refine ⟨(h'.here.trans hsame.here).trans h.here.symm, (h.sound hground.sound).once,
    (h'.sound hground'.sound).once, fun loc => ?_, fun loc hscript => ?_⟩
  · by_cases hloc : home ++ [site.outDir] <+: loc
    · rw [FileTree.kindAt_eq_none.2 (hclear loc hloc), FileTree.kindAt_eq_none.2 (hclear' loc hloc)]
    · have hkind := hsame.kind loc hloc
      unfold kindAt contentAt at hkind ⊢
      rw [(hentry hloc).1, (hentry hloc).2]
      exact hkind
  · by_cases hloc : home ++ [site.outDir] <+: loc
    · rw [contentAt, contentAt, hclear loc hloc, hclear' loc hloc]
    · have hcontent := hsame.content loc hloc hscript
      unfold contentAt at hcontent ⊢
      rw [(hentry hloc).1, (hentry hloc).2]
      exact hcontent

/-! ## Builds -/

variable {bundlers : Bundlers} {bundler : Option Bundler}

theorem outcome_prepare_selected (hcopy : Selects bundlers site bundler copyBundler) {w w' : Workspace}
    (h : outcome (emptyOutput site) w = (.ok (), w')) (tree : Variables) :
    outcome (prepare bundlers site (some tree) bundler) w = (.ok (tree, copyBundler), w') := by
  show outcome (bundlerOf bundlers site bundler >>= fun b => emptyOutput site >>= fun _ => pure (tree, b)) w = _
  rw [Job.outcome_bind, hcopy.outcome_bundlerOf]
  simp only
  rw [Job.outcome_bind, h]
  rfl

/-- Two projects at rest with the same sources are built alike. -/
theorem run_alike (hsite : Usual site home) (hcopy : Selects bundlers site bundler copyBundler)
    (hrest : AtRest site home d) (hrest' : AtRest site home d') {l : Log}
    (hsame : SameSources site home ⟨d, l⟩ d') (tree : Variables) :
    (outcome (run bundlers site (some tree) bundler) ⟨d, l⟩).1 =
        (outcome (run bundlers site (some tree) bundler) ⟨d', l⟩).1 ∧
      ∀ built, (outcome (run bundlers site (some tree) bundler) ⟨d, l⟩).1 = .ok built →
        Alike Nowhere (outcome (run bundlers site (some tree) bundler) ⟨d, l⟩).2.disk
          (outcome (run bundlers site (some tree) bundler) ⟨d', l⟩).2.disk := by
  obtain ⟨d₁, hempty, hchange, hclear⟩ := outcome_emptyOutput_reserved hsite hrest.ground hrest.out l
  obtain ⟨d₁', hempty', hchange', hclear'⟩ := outcome_emptyOutput_reserved hsite hrest'.ground hrest'.out l
  have hground : Ground home d₁ := hrest.ground.step hchange
  have hentries := alike_of_sameSources hsame hrest.ground hrest'.ground hchange hclear hchange' hclear'
  have halike : Alike (Scripts (pagesFound site ⟨d₁, l⟩)) d₁ d₁' := by
    refine hentries.mono ?_
    rintro loc ⟨item, hitem, path, hpath, rfl⟩
    rw [pagesFound_changes hsite hrest.ground hchange]
    obtain ⟨rfl, hplain, -⟩ := script_of_found hsite hrest.ground (mem_pagesFound hitem).2 hpath
    refine ⟨item, hitem, ?_⟩
    rw [Path.resolve_plain hplain]
    exact hpath
  rw [outcome_run, outcome_run, outcome_prepare_selected hcopy hempty, outcome_prepare_selected hcopy hempty']
  exact runStages_alike hsite hground l halike tree

end Sitewright.Build
