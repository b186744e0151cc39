import Sitewright.Build.CopyBundler
import Sitewright.Proofs.Build.Cleanup
import Sitewright.Proofs.Build.Discovery
import Sitewright.Proofs.Coupling
/-!
# The steps of a build by copying

A build by copying is made of a few kinds of steps: directories are made and removed, the public files are
merged in, and files are written. This file lists them. A relation of disks that each of them keeps is kept
by all stages that come after the pages have been materialised, and a property that each of them keeps is
kept by the whole build.

* `PageSteps`, `OutputSteps`, `Steps`: what a relation needs for the bundling of pages, for all that fills the
output directory, and for the whole.
* `Selects`: the bundler that a build works with.

Main statements: `OutputSteps.bundleAndPublish`, `couples_cleanUp`, and `disk_runStages`.
-/
set_option autoImplicit false

namespace Sitewright.Build

open Job (outcome Keeps Couples CouplesFrom EndAlike outcome_bind outcome_look)

def assetsRoot (site : Site) : Path := site.outRoot.join "assets".toList

/-- What a build by copying does once the directory of its assets is there. -/
def fillOutput (site : Site) (artifacts : Artifacts) : Job Bundled := do
  Job.changeBySteps (·.ensureDirectories site.bundledRoot)
  copyPublic site
  let styles ← copyGlobalStyle site (assetsRoot site)
  let (pages, copied) ← (bundlePages site (assetsRoot site) artifacts.pages []).run ⟨[], styles⟩
  return ⟨"copy".toList, pages, copied.assets⟩

theorem bundleByCopying_eq (site : Site) (artifacts : Artifacts) : bundleByCopying site artifacts =
    Job.changeBySteps (·.ensureDirectories (assetsRoot site)) >>= fun _ => fillOutput site artifacts := rfl

/-- What becomes of the shared stylesheet, once it is known whether it needs no compiling. -/
def copyStyleIf (site : Site) (copyable : Bool) : Job (List Path) := do
  if copyable then
    if (← get).disk.sameEntry site.globalSource ((assetsRoot site).join site.globalStyleFile) then
      throw (.sameFile site.globalSource.toText ((assetsRoot site).join site.globalStyleFile).toText)
    Job.change (·.copyBytes site.globalSource ((assetsRoot site).join site.globalStyleFile))
    return [(assetsRoot site).join site.globalStyleFile]
  else
    if ← Job.ask (·.exists? site.globalSource) then
      Job.note .warning ("Global stylesheet ".toList ++ site.globalSource.toText ++
        " needs a preprocessor; not copied".toList)
    return []

theorem copyGlobalStyle_eq (site : Site) : copyGlobalStyle site (assetsRoot site) =
    (if site.globalSource.suffix = ".css".toList then Job.ask (·.isFile site.globalSource) else pure false) >>=
      copyStyleIf site := by
  unfold copyGlobalStyle
  simp only
  split <;> rfl

/-- Two disks on which every question about a path has the same answer. -/
structure SameAnswers (d d' : Disk) : Prop where
  isFile : ∀ p, d.isFile p = d'.isFile p
  isDirectory : ∀ p, d.isDirectory p = d'.isDirectory p
  exists? : ∀ p, d.exists? p = d'.exists? p
  readBytes : ∀ p, d.readBytes p = d'.readBytes p
  list : ∀ p, d.list p = d'.list p
  sameEntry : ∀ p q, d.sameEntry p q = d'.sameEntry p q

theorem SameAnswers.refl (d : Disk) : SameAnswers d d :=
  ⟨fun _ => rfl, fun _ => rfl, fun _ => rfl, fun _ => rfl, fun _ => rfl, fun _ _ => rfl⟩

/-- Every step in which the pages of some routes are bundled keeps a relation of disks. -/
structure PageSteps (site : Site) (routes : List Text) (R : Disk → Disk → Prop) : Prop where
  answers : ∀ d d', R d d' → SameAnswers d d'
  asset : ∀ address bytes, Couples R
    (Job.change (·.writeBytes ((assetsRoot site).join (bundledName (sourceOf site address) bytes)) bytes))
  bundled : ∀ route ∈ routes, ∀ s, Couples R (Job.writeText (pageFile site.bundledRoot route) s)

/-- Every step of a build by copying that fills the output directory keeps a relation of disks. -/
structure OutputSteps (site : Site) (routes : List Text) (R : Disk → Disk → Prop) : Prop
    extends PageSteps site routes R where
  make : ∀ p ∈ [assetsRoot site, site.bundledRoot], Couples R (Job.changeBySteps (·.ensureDirectories p))
  merge : ∀ d d', R d d' →
    (d.copyTree site.publicRoot site.outRoot).2 = (d'.copyTree site.publicRoot site.outRoot).2 ∧
      R (d.copyTree site.publicRoot site.outRoot).1 (d'.copyTree site.publicRoot site.outRoot).1
  style : Couples R (Job.change (·.copyBytes site.globalSource ((assetsRoot site).join site.globalStyleFile)))
  publish : ∀ d d' names, R d d' → d.list site.bundledRoot = .ok names → ∀ name ∈ names,
    isPageName name = true → ∀ s, Couples R (Job.writeText (site.outRoot.child name) s)

/-- Every step of a build by copying, from the bundling of some routes on, keeps a relation of disks. -/
structure Steps (site : Site) (routes : List Text) (R : Disk → Disk → Prop) : Prop
    extends OutputSteps site routes R where
  remove : ∀ p ∈ [site.bundledRoot, site.tmpRoot], Couples R (Job.changeBySteps (·.removeTree p))

variable {site : Site} {routes : List Text} {R : Disk → Disk → Prop}

/-! ## Bundling -/

namespace PageSteps

theorem isFile (h : PageSteps site routes R) (p : Path) : Couples R (Job.ask (·.isFile p)) :=
  .ask fun d d' hd => (h.answers d d' hd).isFile p

theorem isDirectory (h : PageSteps site routes R) (p : Path) : Couples R (Job.ask (·.isDirectory p)) :=
  .ask fun d d' hd => (h.answers d d' hd).isDirectory p

theorem exists? (h : PageSteps site routes R) (p : Path) : Couples R (Job.ask (·.exists? p)) :=
  .ask fun d d' hd => (h.answers d d' hd).exists? p

theorem readBytes (h : PageSteps site routes R) (p : Path) : Couples R (Job.ask (·.readBytes p)) :=
  .ask fun d d' hd => (h.answers d d' hd).readBytes p

theorem textOf (h : PageSteps site routes R) (p : Path) : Couples R (Job.textOf p) :=
  .textOf fun d d' hd => (h.answers d d' hd).readBytes p

theorem bundleSource (h : PageSteps site routes R) (address : Text) :
    CouplesFrom R (bundleSource (assetsRoot site) (sourceOf site address)) := by
  unfold Build.bundleSource
  refine CouplesFrom.get.bind fun copied => ?_
  cases copied.nameOf? (sourceOf site address) with
  | some name => exact .pure name
  | none =>
    refine (CouplesFrom.lift (h.readBytes _)).bind fun bytes => ?_
    refine (CouplesFrom.lift (h.asset address bytes)).bind fun _ => ?_
    exact (CouplesFrom.modify _).bind fun _ => .pure _

theorem replaceReference (h : PageSteps site routes R) (found : RootedReference) (source : Text) :
    CouplesFrom R (replaceReference site (assetsRoot site) found source) := by
  unfold Build.replaceReference
  simp only
  split
  · refine (CouplesFrom.lift (h.isFile _)).bind fun there => ?_
    cases there with
    | false => exact .pure source
    | true => exact (h.bundleSource found.address).bind fun name => .pure _
  · exact .pure source

theorem bundlePages (h : PageSteps site routes R) {pages : Keyed Path} (hpages : ∀ item ∈ pages, item.1 ∈ routes)
    (made : Keyed Path) : CouplesFrom R (bundlePages site (assetsRoot site) pages made) := by
  induction pages generalizing made with
  | nil => exact .pure made
  | cons item rest ih =>
    obtain ⟨route, file⟩ := item
    unfold Build.bundlePages
    have hroute : route ∈ routes := hpages _ List.mem_cons_self
    have hrest := ih fun item hitem => hpages item (List.mem_cons_of_mem _ hitem)
    refine (CouplesFrom.lift (h.textOf file)).bind fun html => ?_
    refine CouplesFrom.bind ?_ fun html => ?_
    · unfold Scan.substituteM
      refine CouplesFrom.bind (CouplesFrom.mapM fun mark _ => ?_) fun texts => .pure _
      exact h.replaceReference mark.1 mark.2
    · refine (CouplesFrom.lift (h.bundled route hroute html)).bind fun _ => ?_
      exact hrest _

end PageSteps

namespace OutputSteps

theorem copyPublic (h : OutputSteps site routes R) : Couples R (copyPublic site) := by
  unfold Build.copyPublic
  refine (h.isDirectory _).bind fun there => ?_
  cases there with
  | false => exact .pure _
  | true =>
    refine Couples.get_bind fun w v hwv => ?_
    obtain ⟨hresult, hdisk⟩ := h.merge w.disk v.disk hwv.disk
    rcases hw : w.disk.copyTree site.publicRoot site.outRoot with ⟨d, r⟩
    rcases hv : v.disk.copyTree site.publicRoot site.outRoot with ⟨d', q⟩
    rw [hw, hv] at hresult hdisk
    simp only at hresult hdisk
    subst hresult
    have hlog := hwv.log
    rcases r with (problem | notes) | u
    · exact ⟨rfl, hlog, hdisk⟩
    · exact ⟨rfl, hlog, hdisk⟩
    · exact ⟨rfl, hlog, hdisk⟩

theorem copyGlobalStyle (h : OutputSteps site routes R) : Couples R (copyGlobalStyle site (assetsRoot site)) := by
  have hrest : ∀ copyable, Couples R (copyStyleIf site copyable) := by
    intro copyable
    unfold copyStyleIf
    cases copyable with
    | true =>
      refine Couples.get_bind fun w v hwv => ?_
      have hsame := (h.answers w.disk v.disk hwv.disk).sameEntry site.globalSource
        ((assetsRoot site).join site.globalStyleFile)
      rw [hsame]
      split
      · exact Couples.throw _ w v hwv
      · exact (h.style.bind fun _ => .pure _) w v hwv
    | false =>
      refine (h.exists? _).bind fun there => ?_
      cases there with
      | false => exact .pure _
      | true => exact (Couples.note _ _).bind fun _ => .pure _
  rw [copyGlobalStyle_eq]
  split
  · exact (h.isFile _).bind hrest
  · exact (Couples.pure false).bind hrest

theorem fillOutput {artifacts : Artifacts} (h : OutputSteps site artifacts.routes R) :
    Couples R (fillOutput site artifacts) := by
  unfold Build.fillOutput
  refine (h.make site.bundledRoot (by simp)).bind fun _ => ?_
  refine h.copyPublic.bind fun _ => ?_
  refine h.copyGlobalStyle.bind fun styles => ?_
  have hpages : ∀ item ∈ artifacts.pages, item.1 ∈ artifacts.routes := fun item hitem =>
    List.mem_map_of_mem hitem
  exact (h.bundlePages hpages [] ⟨[], styles⟩).bind fun _ => .pure _

theorem bundleByCopying {artifacts : Artifacts} (h : OutputSteps site artifacts.routes R) :
    Couples R (bundleByCopying site artifacts) := by
  rw [bundleByCopying_eq]
  exact (h.make (assetsRoot site) (by simp)).bind fun _ => h.fillOutput

/-! ## Publishing -/

theorem publishPage (h : OutputSteps site routes R) (base : BaseAddress) {name : Text}
    (hwrite : ∀ s, Couples R (Job.writeText (site.outRoot.child name) s)) :
    Couples R (publishPage site base name) := by
  unfold Build.publishPage
  refine (h.textOf _).bind fun html => ?_
  refine (Couples.ofExcept _).bind fun address => ?_
  exact (hwrite _).bind fun _ => .pure _

theorem publishAll (h : OutputSteps site routes R) (base : BaseAddress) : Couples R (Build.publish site base) := by
  unfold Build.publish
  refine (h.isDirectory _).bind fun there => ?_
  cases there with
  | false => exact (Couples.note _ _).bind fun _ => .pure _
  | true =>
    refine (Couples.ask fun d d' hd => (h.answers d d' hd).list _).bind_of fun names w v w' hwv hlist => ?_
    rw [Job.outcome_ask] at hlist
    have hnames := Reading.mapError_eq_ok (congrArg Prod.fst hlist)
    refine Couples.mapM fun name hname => h.publishPage base ?_
    obtain ⟨hmem, hpage⟩ := List.mem_filter.1 hname
    exact h.publish w.disk v.disk names hwv.disk hnames name hmem hpage

theorem bundleAndPublish {artifacts : Artifacts} (h : OutputSteps site artifacts.routes R) :
    Couples R (bundleAndPublish site copyBundler artifacts) :=
  h.bundleByCopying.bind fun _ => h.publishAll _

end OutputSteps

/-! ## Cleaning up -/

theorem couples_discard {p : Path} (hexists : ∀ d d', R d d' → d.exists? p = d'.exists? p)
    (hremove : Couples R (Job.changeBySteps (·.removeTree p))) : Couples R (discard p) := by
  unfold discard
  refine (Couples.ask hexists).bind fun there => ?_
  cases there with
  | false => exact .pure _
  | true =>
    refine hremove.attempt.bind fun result => ?_
    cases result with
    | ok u => exact .pure _
    | error e =>
      simp only
      split
      · exact Couples.note _ _
      · exact .throw e

theorem couples_cleanUp {artifacts : Option Artifacts} (hroots : ∀ a ∈ artifacts, a.tmpRoots = [site.tmpRoot])
    (h : ∀ p ∈ [site.bundledRoot, site.tmpRoot], Couples R (discard p)) : Couples R (cleanUp site artifacts) := by
  unfold cleanUp
  rw [temporaryRoots_eq hroots]
  exact Couples.forM h

namespace Steps

theorem discard (h : Steps site routes R) {p : Path} (hp : p ∈ [site.bundledRoot, site.tmpRoot]) :
    Couples R (discard p) := couples_discard (fun d d' hd => (h.answers d d' hd).exists? p) (h.remove p hp)

theorem cleanUp (h : Steps site routes R) {artifacts : Option Artifacts}
    (hroots : ∀ a ∈ artifacts, a.tmpRoots = [site.tmpRoot]) : Couples R (cleanUp site artifacts) :=
  couples_cleanUp hroots fun _ hp => h.discard hp

end Steps

/-! ## A build as a whole -/

/-- A build works with a bundler: the one that it is given, or the one that the site names. -/
def Selects (bundlers : Bundlers) (site : Site) (bundler : Option Bundler) (b : Bundler) : Prop :=
  match bundler with
  | some given => given = b
  | none => bundlers.find site.bundler = .ok b

variable {bundlers : Bundlers} {given : Option Variables} {bundler : Option Bundler}
  {I : Disk → Prop}

theorem Selects.outcome_bundlerOf {b : Bundler} (h : Selects bundlers site bundler b) (w : Workspace) :
    outcome (bundlerOf bundlers site bundler) w = (.ok b, w) := by
  cases bundler with
  | some given =>
    cases h
    rfl
  | none =>
    have hfind : bundlers.find site.bundler = .ok b := h
    unfold bundlerOf
    rw [outcome_look, Reading.outcome_ofExcept, hfind]
    rfl

theorem Selects.eq_of_prepare {b b' : Bundler} (h : Selects bundlers site bundler b) {tree : Variables}
    {w w' : Workspace} (hrun : outcome (prepare bundlers site given bundler) w = (.ok (tree, b'), w')) :
    b' = b := by
  unfold prepare at hrun
  obtain ⟨tree', w₁, _, hafter⟩ := Job.exists_of_bind_ok hrun
  obtain ⟨chosen, w₂, hchosen, hlast⟩ := Job.exists_of_bind_ok hafter
  obtain ⟨u, w₃, _, hend⟩ := Job.exists_of_bind_ok hlast
  rw [h.outcome_bundlerOf] at hchosen
  have hpair := congrArg Prod.fst hend
  rw [Job.outcome_pure] at hpair
  cases hchosen
  cases hpair
  rfl

/-- What the emptying of the output directory keeps, unless it refuses. -/
theorem keeps_emptyOutput
    (h : ∀ d, ¬ site.outRoot.hasNul = true →
      ¬ holds (site.outRoot.resolve d.here) (site.root.resolve d.here) = true → I d →
      I (d.removeTree (.ofLocation (site.outRoot.resolve d.here))).1) :
    Keeps I (emptyOutput site) := by
  intro w hw
  unfold emptyOutput
  rw [outcome_bind, Job.outcome_get]
  simp only
  by_cases hnul : site.outRoot.hasNul = true
  · rw [if_pos hnul]
    exact hw
  · rw [if_neg hnul]
    by_cases hholds : holds (site.outRoot.resolve w.disk.here) (site.root.resolve w.disk.here) = true
    · rw [if_pos hholds]
      exact hw
    · rw [if_neg hholds, outcome_bind, Job.outcome_ask]
      cases w.disk.exists? (.ofLocation (site.outRoot.resolve w.disk.here)) with
      | error e => exact hw
      | ok there =>
        cases there with
        | false => exact hw
        | true =>
          simp only [Except.mapError, if_true]
          rw [Job.outcome_changeBySteps]
          exact h w.disk hnul hholds hw

theorem keeps_prepare (h : Keeps I (emptyOutput site)) : Keeps I (prepare bundlers site given bundler) := by
  unfold prepare
  refine Keeps.bind (fun w hw => ?_) fun tree => Keeps.bind (fun w hw => ?_) fun b => ?_
  · rw [disk_variablesOf]
    exact hw
  · rw [disk_bundlerOf]
    exact hw
  · exact h.bind fun _ => .pure _

/-- The routes of what is materialised are those of the pages. -/
theorem routes_materializeAll {tree : Variables} {pages : Keyed Page} {made a : Artifacts} {w w' : Workspace}
    (h : outcome (materializeAll site tree pages made) w = (.ok a, w')) :
    ∀ route ∈ a.routes, route ∈ made.routes ∨ route ∈ Keyed.keys pages := by
  induction pages generalizing made w with
  | nil =>
    cases h
    exact fun route hroute => .inl hroute
  | cons item rest ih =>
    obtain ⟨name, page⟩ := item
    unfold materializeAll at h
    obtain ⟨files, w₁, _, h⟩ := Job.exists_of_bind_ok h
    intro route hroute
    have hkeys : Keyed.keys ((name, page) :: rest) = name :: Keyed.keys rest := rfl
    rw [hkeys]
    rcases ih h route hroute with hmade | hrest
    · rw [Artifacts.routes, Keyed.keys_put] at hmade
      split at hmade
      · exact .inl hmade
      · rcases List.mem_append.1 hmade with hmade | hmade
        · exact .inl hmade
        · rw [List.mem_singleton.1 hmade]
          exact .inr List.mem_cons_self
    · exact .inr (List.mem_cons_of_mem _ hrest)

theorem routes_materializeSite {tree : Variables} {a : Artifacts} {w w' : Workspace}
    (h : outcome (materializeSite site tree) w = (.ok a, w')) :
    a.tmpRoots = [site.tmpRoot] ∧ ∀ route ∈ a.routes, route ∈ Keyed.keys (pagesFound site w) := by
  unfold materializeSite at h
  obtain ⟨pages, w₁, hfound, h⟩ := Job.exists_of_bind_ok h
  rw [outcome_look] at hfound
  have hpages : pagesFound site w = pages := by
    unfold pagesFound
    rw [congrArg Prod.fst hfound]
    rfl
  rw [hpages]
  unfold materialize at h
  simp only at h
  split at h
  · obtain ⟨_, w₂, _, h⟩ := Job.exists_of_bind_ok h
    cases h
    exact ⟨rfl, fun route hroute => absurd hroute List.not_mem_nil⟩
  · obtain ⟨_, w₂, _, h⟩ := Job.exists_of_bind_ok h
    refine ⟨tmpRoots_materializeAll h, fun route hroute => ?_⟩
    exact (routes_materializeAll h route hroute).resolve_left List.not_mem_nil

/-- What a build writes for a page before it bundles keeps a property: its script entry, if it has one, and
its document. -/
structure WritesPage (site : Site) (I : Disk → Prop) (page : Page) : Prop where
  script : ∀ path ∈ page.script, ∀ s, Keeps I (Job.writeText path s)
  document : ∀ s, Keeps I (Job.writeText (pageFile site.tmpRoot page.route) s)

theorem WritesPage.writeEntry {page : Page} (h : WritesPage site I page) (fragment : Text) :
    Keeps I (writeEntry site page fragment) := by
  unfold Build.writeEntry
  cases hscript : page.script with
  | none => exact .pure none
  | some path =>
    refine (Keeps.ask _).bind fun there => ?_
    cases there with
    | false => exact .pure none
    | true => exact (Keeps.look _).bind fun script => (h.script path hscript script).bind fun _ => .pure _

theorem WritesPage.materializePage {page : Page} (h : WritesPage site I page) (tree : Variables) :
    Keeps I (materializePage site tree page) := by
  unfold Build.materializePage
  refine (Keeps.look _).bind fun fragment => (h.writeEntry fragment).bind fun entry => ?_
  exact (Keeps.look _).bind fun html => (h.document html).bind fun _ => .pure _

theorem keeps_materializeAll {pages : Keyed Page} (h : ∀ item ∈ pages, WritesPage site I item.2)
    (tree : Variables) (made : Artifacts) : Keeps I (materializeAll site tree pages made) := by
  induction pages generalizing made with
  | nil => exact .pure made
  | cons item rest ih =>
    obtain ⟨route, page⟩ := item
    unfold materializeAll
    have hrest := ih fun item hitem => h item (List.mem_cons_of_mem _ hitem)
    exact ((h _ List.mem_cons_self).materializePage tree).bind fun _ => hrest _

theorem disk_materializeSite (tree : Variables) {w : Workspace} (hw : I w.disk)
    (hmake : Keeps I (Job.changeBySteps (·.ensureDirectories site.tmpRoot)))
    (hpages : ∀ item ∈ pagesFound site w, WritesPage site I item.2) :
    I (outcome (materializeSite site tree) w).2.disk := by
  unfold materializeSite
  rw [outcome_bind, outcome_look]
  unfold pagesFound at hpages
  rcases hfound : (Page.discover site).outcome w.disk w.log with ⟨e | pages, l⟩
  · exact hw
  · rw [hfound] at hpages
    simp only
    unfold materialize
    simp only
    split
    · exact hw
    · have hkeeps : Keeps I (Job.changeBySteps (·.ensureDirectories site.tmpRoot) >>= fun _ =>
          materializeAll site tree pages ⟨[], [], [site.tmpRoot]⟩) :=
        hmake.bind fun _ => keeps_materializeAll hpages tree _
      exact hkeeps ⟨w.disk, l⟩ hw

theorem Steps.mono {routes routes' : List Text} {R : Disk → Disk → Prop} (h : Steps site routes R)
    (hsub : ∀ route ∈ routes', route ∈ routes) : Steps site routes' R :=
  { h with bundled := fun route hroute => h.bundled route (hsub route hroute) }

/-- A property that each step of a build by copying keeps is kept by all its stages, whatever becomes of
them. -/
theorem disk_runStages (tree : Variables) {w : Workspace} (hw : I w.disk)
    (hmake : Keeps I (Job.changeBySteps (·.ensureDirectories site.tmpRoot)))
    (hpages : ∀ item ∈ pagesFound site w, WritesPage site I item.2)
    (hsteps : Steps site (Keyed.keys (pagesFound site w)) (Disk.Twin I)) :
    I (outcome (runStages site tree copyBundler) w).2.disk := by
  have hmade := disk_materializeSite tree hw hmake hpages
  unfold runStages
  rw [outcome_bind, Job.outcome_attempt]
  rcases hrun : outcome (materializeSite site tree) w with ⟨e | artifacts, w₁⟩
  · rw [hrun] at hmade
    have hclean : Keeps I (cleanUp site none >>= fun _ => (throw e : Job Built)) := by
      refine Keeps.bind (hsteps.cleanUp ?_).keeps fun _ => .throw e
      intro a ha
      cases ha
    exact hclean w₁ hmade
  · rw [hrun] at hmade
    obtain ⟨hroots, hroutes⟩ := routes_materializeSite hrun
    have hrest : Couples (Disk.Twin I) (Job.andFinally (bundleAndPublish site copyBundler artifacts)
        fun _ => cleanUp site (some artifacts)) := by
      refine Couples.andFinally (hsteps.mono hroutes).bundleAndPublish fun r => hsteps.cleanUp ?_
      intro a ha
      cases ha
      exact hroots
    exact (hrest.keeps.bind fun outputs => .pure _) w₁ hmade

end Sitewright.Build
