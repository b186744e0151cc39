import Sitewright.Proofs.Build.Documents
import Sitewright.Proofs.Text.Occurrence
/-!
# From documents to pages

The documents are bundled into the directory of bundled pages, each is published from there, and the temporary
directories are removed. No step undoes what an earlier one has done for a page.

* `bundledAt`, `outputAt`: where a page stands after bundling, and in the end.

Main statements: one for each stage, `Faithful.pages` and `published`.
-/
set_option autoImplicit false

namespace Sitewright.Build

open FileTree (entryAt)
open Disk (Changes Ground Spares spares_nowhere)
open Job (outcome Keeps Couples Yields)
open Reading (textIn)

variable {site : Site} {home loc : Location} {d look : Disk} {T S : Location → Prop} {w w' : Workspace}
  {st t : Workspace × Copied} {item : Text × Path}

/-! ## Bundling -/

/-- Where the page of a route stands once it is bundled. -/
def bundledAt (site : Site) (home : Location) (route : Text) : Location :=
  home ++ [site.outDir] ++ [site.tmpDir] ++ [fileOf route]

theorem pageFile_bundledRoot (hsite : Usual site home) {route : Text} (hroute : Path.FileName route) :
    pageFile site.bundledRoot route = .ofLocation (bundledAt site home route) := by
  rw [pageFile_eq hroute, hsite.bundledRoot_eq]
  rfl

theorem PlainNames.bundledAt (hsite : Usual site home) (hhome : PlainNames home) {route : Text}
    (hname : Path.PlainName (fileOf route)) : PlainNames (bundledAt site home route) :=
  ((hhome.child hsite.plain_outDir).child hsite.plain_tmpDir).child hname

/-- A page is bundled: its document is read, its references are replaced, and it is written. -/
def BundlesPage (site : Site) (item : Text × Path) (_ : Unit) (st t : Workspace × Copied) : Prop :=
  ∃ html text u, textIn st.1.disk item.2 = .ok html ∧
    Yields (Scan.substituteM rootedReference (replaceReference site (assetsRoot site)) html) st text u ∧
    u.1.disk.writeBytes (pageFile site.bundledRoot item.1) (Utf8.encode text) = .ok t.1.disk ∧ t.2 = u.2

theorem course_of_bundlePages {pages made made' : Keyed Path}
    (h : Yields (bundlePages site (assetsRoot site) pages made) st made' t) :
    ∃ units, Course (BundlesPage site) pages units st t := by
  induction pages generalizing made st with
  | nil =>
    obtain ⟨-, rfl⟩ := h.of_pure
    exact ⟨[], .nil _⟩
  | cons item rest ih =>
    obtain ⟨route, file⟩ := item
    unfold bundlePages at h
    obtain ⟨html, st₁, hread, hrest⟩ := h.exists_of_bind
    obtain ⟨hread, hst₁⟩ := hread.of_lift
    obtain ⟨hhtml, hdisk⟩ := Job.of_textOf_ok hread
    rw [show st₁ = st from Prod.ext hdisk hst₁] at hrest
    obtain ⟨text, u, htext, hrest⟩ := hrest.exists_of_bind
    obtain ⟨_, v, hwrite, hrest⟩ := hrest.exists_of_bind
    obtain ⟨hwrite, hv⟩ := hwrite.of_lift
    obtain ⟨units, hcourse⟩ := ih hrest
    exact ⟨() :: units, .cons ⟨html, text, u, hhtml, htext, Job.of_writeText_ok hwrite, hv⟩ hcourse⟩

theorem changes_substitute (hsite : Usual site home) (hhome : PlainNames home) {s text : Text}
    (h : Yields (Scan.substituteM rootedReference (replaceReference site (assetsRoot site)) s) st text t) :
    Changes (AssetsPart site home) Nowhere st.1.disk t.1.disk := by
  obtain ⟨texts, rfl, hcourse⟩ := course_of_substituteM h
  refine hcourse.keeps (I := fun s => Changes (AssetsPart site home) Nowhere st.1.disk s.1.disk)
    (fun mark _ text s t hs hrun => hs.trans ?_) (.refl _ _ _)
  exact (hrun.changes hsite.placed hhome).mono (fun _ hc => hc.elim) fun _ hl => .inl hl.assetsPart

theorem spares_assets (hsite : Usual site home) (route : Text) :
    Spares (AssetsPart site home) (bundledAt site home route) := by
  rw [bundledAt, List.append_assoc]
  refine spares_beneath_of_not_mem ?_ _
  rw [hsite.tmpDir]
  decide

/-- What the bundling of a page touches. -/
def BundlingOf (site : Site) (home : Location) (route : Text) : Location → Prop :=
  fun l => AssetsPart site home l ∨ l = bundledAt site home route

theorem bundlingOf_out {route : Text} {l : Location} (h : BundlingOf site home route l) :
    Beneath home [site.outDir] l := by
  rcases h with hassets | rfl
  · exact Beneath.above hassets
  · refine ⟨site.outDir, List.mem_singleton_self _, ?_⟩
    rw [bundledAt, List.append_assoc]
    exact List.prefix_append _ _

section

variable (hsite : Usual site home) (hground : Ground home look) (hroute : Path.FileName item.1)
  (hname : Path.PlainName (fileOf item.1))
include hsite hground hroute hname

theorem changes_bundlesPage {u : Unit} (h : BundlesPage site item u st t) :
    Changes (BundlingOf site home item.1) Nowhere st.1.disk t.1.disk := by
  obtain ⟨html, text, v, -, htext, hwrite, -⟩ := h
  rw [pageFile_bundledRoot hsite hroute] at hwrite
  refine ((changes_substitute hsite hground.plain htext).widen fun l hl => .inl hl).trans ?_
  exact Disk.changes_writeBytes (PlainNames.bundledAt hsite hground.plain hname) (.inr rfl) hwrite

/-- A page is bundled as it is on the disk that bundling began with. -/
theorem Faithful.page {u : Unit} (h : Faithful site home look st)
    (hfile : item.2 = .ofLocation (documentAt site home item.1)) (hrun : BundlesPage site item u st t) :
    Faithful site home look t ∧ ∃ text,
      t.1.disk.readBytes (.ofLocation (bundledAt site home item.1)) = .ok (Utf8.encode text) ∧
      ∀ html, textIn look item.2 = .ok html → RefersOutside site (Beneath home [site.outDir]) html →
        text = bundledText site look html := by
  have hchange := changes_bundlesPage hsite hground hroute hname hrun
  obtain ⟨html, text, v, hhtml, htext, hwrite, hv⟩ := hrun
  obtain ⟨hfaithful, hsame⟩ := h.substitute hsite hground.plain htext
  rw [pageFile_bundledRoot hsite hroute] at hwrite
  have hplain := PlainNames.bundledAt hsite hground.plain hname
  refine ⟨⟨h.disk.trans (hchange.widen fun l hl => ?_), ?_⟩, text, Disk.readBytes_writeBytes hwrite,
    fun html' hhtml' hout => ?_⟩
  · exact bundlingOf_out hl
  · rw [hv]
    exact hfaithful.names
  · have hdocument : textIn st.1.disk item.2 = textIn look item.2 := by
      rw [hfile]
      refine Reading.textIn_congr (h.disk.readBytes_eq ?_ ?_ (spares_nowhere _))
      · exact PlainNames.documentAt hsite hground.plain hname
      · rw [documentAt, List.append_assoc]
        refine spares_beneath_of_not_mem ?_ _
        rw [List.mem_singleton]
        exact hsite.tmpDir_ne_outDir
    rw [hdocument, hhtml'] at hhtml
    cases hhtml
    exact hsame hout

end

/-- A page has been bundled: something is there, and it is what its document gives on the disk that bundling began
with, if the document refers to nothing in the output directory. -/
def PageBundled (site : Site) (home : Location) (look : Disk) (item : Text × Path) (d : Disk) : Prop :=
  ∃ text, d.readBytes (.ofLocation (bundledAt site home item.1)) = .ok (Utf8.encode text) ∧
    ∀ html, textIn look item.2 = .ok html → RefersOutside site (Beneath home [site.outDir]) html →
      text = bundledText site look html

theorem Faithful.pages {pages : Keyed Path} {units : List Unit} (hsite : Usual site home) (hground : Ground home look)
    (hnodup : (Keyed.keys pages).Nodup)
    (hpages : ∀ item ∈ pages, Path.FileName item.1 ∧ Path.PlainName (fileOf item.1) ∧
      item.2 = .ofLocation (documentAt site home item.1))
    (h : Faithful site home look st) (hcourse : Course (BundlesPage site) pages units st t) :
    Faithful site home look t ∧ ∀ item ∈ pages, PageBundled site home look item t.1.disk := by
  refine hcourse.each (I := Faithful site home look) (fun item t => PageBundled site home look item t.1.disk)
    (List.Nodup.of_map _ hnodup) (fun item hitem u st t hst hrun => ?_)
    (fun item hitem other hother hne u st t hst hpost hrun => ?_) h
  · obtain ⟨hroute, hname, hfile⟩ := hpages item hitem
    exact hst.page hsite hground hroute hname hfile hrun
  · obtain ⟨hroute, hname, -⟩ := hpages other hother
    obtain ⟨text, hread, hsame⟩ := hpost
    have hplain := PlainNames.bundledAt hsite hground.plain (hpages item hitem).2.1
    have hkey : other.1 ≠ item.1 := fun hc => hne (List.inj_on_of_nodup_map hnodup hother hitem hc)
    refine ⟨text, ?_, hsame⟩
    rw [(changes_bundlesPage hsite hground hroute hname hrun).readBytes_eq hplain ?_ (spares_nowhere _), hread]
    rintro loc hloc (hassets | hother)
    · exact spares_assets hsite item.1 loc hloc hassets
    · exact spares_name (fun hc => hkey (List.append_cancel_right hc)) loc hloc hother

/-- What a build by copying does before it bundles pages. -/
def prepareOutput (site : Site) : Job (List Path) := do
  Job.changeBySteps (·.ensureDirectories (assetsRoot site))
  Job.changeBySteps (·.ensureDirectories site.bundledRoot)
  copyPublic site
  copyGlobalStyle site (assetsRoot site)

theorem bundleByCopying_prepared (site : Site) (made : Artifacts) : bundleByCopying site made =
    prepareOutput site >>= fun styles => do
      let (pages, copied) ← (bundlePages site (assetsRoot site) made.pages []).run ⟨[], styles⟩
      return ⟨"copy".toList, pages, copied.assets⟩ := by
  unfold bundleByCopying prepareOutput assetsRoot
  simp only [bind_assoc]

theorem OutputSteps.prepareOutput {routes : List Text} {R : Disk → Disk → Prop} (h : OutputSteps site routes R) :
    Couples R (prepareOutput site) := by
  unfold Build.prepareOutput
  refine (h.make (assetsRoot site) (by simp)).bind fun _ => ?_
  refine (h.make site.bundledRoot (by simp)).bind fun _ => ?_
  exact h.copyPublic.bind fun _ => h.copyGlobalStyle

theorem lasting_output (hground : Ground home d) :
    Lasting site home (Changes (Beneath home [site.outDir]) Nowhere d) where
  ground _ h := hground.step h
  output _ _ hchange h := h.trans hchange

theorem changes_prepareOutput (hplaced : Placed site home) (hground : Ground home w.disk) {styles : List Path}
    (h : outcome (prepareOutput site) w = (.ok styles, w')) :
    Changes (Beneath home [site.outDir]) Nowhere w.disk w'.disk := by
  have hsteps : OutputSteps site [] (Disk.Twin (Changes (Beneath home [site.outDir]) Nowhere w.disk)) :=
    (lasting_output hground).outputSteps hplaced fun route hroute => absurd hroute List.not_mem_nil
  have hkept := hsteps.prepareOutput.keeps w (.refl _ _ _)
  rw [h] at hkept
  exact hkept

theorem exists_of_bundleByCopying {made : Artifacts} {b : Bundled}
    (h : outcome (bundleByCopying site made) w = (.ok b, w')) :
    ∃ styles w₁ copied units, outcome (prepareOutput site) w = (.ok styles, w₁) ∧
      Course (BundlesPage site) made.pages units (w₁, ⟨[], styles⟩) (w', copied) := by
  rw [bundleByCopying_prepared] at h
  obtain ⟨styles, w₁, hprepare, h⟩ := Job.exists_of_bind_ok h
  obtain ⟨⟨pages, copied⟩, w₂, hbundle, h⟩ := Job.exists_of_bind_ok h
  cases h
  have hyields : Yields (bundlePages site (assetsRoot site) made.pages []) (w₁, ⟨[], styles⟩) pages (w', copied) :=
    hbundle
  obtain ⟨units, hcourse⟩ := course_of_bundlePages hyields
  exact ⟨styles, w₁, copied, units, hprepare, hcourse⟩

theorem pagesBundled (hsite : Usual site home) (hground : Ground home w.disk) {made : Artifacts} {b : Bundled}
    (hnodup : (Keyed.keys made.pages).Nodup)
    (hpages : ∀ item ∈ made.pages, Path.FileName item.1 ∧ Path.PlainName (fileOf item.1) ∧
      item.2 = .ofLocation (documentAt site home item.1))
    (h : outcome (bundleByCopying site made) w = (.ok b, w')) :
    Changes (Beneath home [site.outDir]) Nowhere w.disk w'.disk ∧
      ∀ item ∈ made.pages, PageBundled site home w.disk item w'.disk := by
  obtain ⟨styles, w₁, copied, units, hprepare, hcourse⟩ := exists_of_bundleByCopying h
  have hfaithful : Faithful site home w.disk (w₁, ⟨[], styles⟩) :=
    ⟨changes_prepareOutput hsite.placed hground hprepare, fun file name hname => by cases hname⟩
  obtain ⟨hend, hpublished⟩ := hfaithful.pages hsite hground hnodup hpages hcourse
  exact ⟨hend.disk, hpublished⟩

/-! ## Publishing -/

def publishedText (site : Site) (base html : Text) : Text :=
  ensureGlobalStyle site base (rewriteAddresses base site.staticDirs html)

/-- Where a file of a name stands in the output directory. -/
def outputAt (site : Site) (home : Location) (name : Text) : Location := home ++ [site.outDir] ++ [name]

/-- The locations of pages in the output directory. -/
def OutputPage (site : Site) (home : Location) : Location → Prop :=
  fun l => ∃ name, isPageName name = true ∧ l = outputAt site home name

/-- The names of the pages that are ready to be published. -/
def readyNames (site : Site) (d : Disk) : List Text :=
  match d.list site.bundledRoot with
  | .ok names => names.filter isPageName
  | .error _ => []

/-- A page has been published as it stood on a disk. -/
def PagePublished (site : Site) (home : Location) (look : Disk) (name : Text) (d : Disk) : Prop :=
  ∃ base html, site.baseUrl = .text base ∧ textIn look (site.bundledRoot.child name) = .ok html ∧
    d.readBytes (.ofLocation (outputAt site home name)) = .ok (Utf8.encode (publishedText site base html))

theorem exists_of_publishPage {base : BaseAddress} {name : Text} {target : Path}
    (h : outcome (publishPage site base name) w = (.ok target, w')) : ∃ address html, base = .text address ∧
      textIn w.disk (site.bundledRoot.child name) = .ok html ∧
      w.disk.writeBytes (site.outRoot.child name) (Utf8.encode (publishedText site address html)) = .ok w'.disk ∧
      target = site.outRoot.child name := by
  unfold publishPage at h
  obtain ⟨html, w₁, hread, hrest⟩ := Job.exists_of_bind_ok h
  obtain ⟨hhtml, hw₁⟩ := Job.of_textOf_ok hread
  rw [hw₁] at hrest
  obtain ⟨address, w₂, hbase, hrest⟩ := Job.exists_of_bind_ok hrest
  rw [Job.outcome_ofExcept] at hbase
  obtain ⟨_, w₃, hwrite, hrest⟩ := Job.exists_of_bind_ok hrest
  cases hrest
  cases base with
  | ofType typeName => cases hbase
  | text s =>
    cases hbase
    exact ⟨_, html, rfl, hhtml, Job.of_writeText_ok hwrite, rfl⟩

theorem readyNames_cases (site : Site) (d : Disk) : readyNames site d = [] ∨
    ∃ dir, d.place site.bundledRoot = .ok (.entry dir .directory) ∧
      readyNames site d = (Text.sorted (FileTree.names dir d.tree)).filter isPageName := by
  unfold readyNames Disk.list
  split
  · rename_i names hlist
    split at hlist
    · cases hlist
      exact .inr ⟨_, ‹_›, rfl⟩
    all_goals cases hlist
  · exact .inl rfl

theorem exists_of_mem_readyNames {name : Text} (h : name ∈ readyNames site d) :
    ∃ dir, d.place site.bundledRoot = .ok (.entry dir .directory) ∧
      (∃ e, entryAt (dir ++ [name]) d.tree = some e) ∧ isPageName name = true := by
  rcases readyNames_cases site d with hnone | ⟨dir, hdir, hready⟩
  · rw [hnone] at h
    exact absurd h List.not_mem_nil
  · rw [hready] at h
    obtain ⟨hmem, hpage⟩ := List.mem_filter.1 h
    rw [Text.sorted, List.mem_mergeSort, FileTree.mem_names] at hmem
    exact ⟨dir, hdir, hmem, hpage⟩

theorem plain_of_readyNames (hsound : FileTree.Sound d.tree) {name : Text} (h : name ∈ readyNames site d) :
    Path.PlainName name ∧ isPageName name = true := by
  obtain ⟨dir, -, ⟨e, he⟩, hpage⟩ := exists_of_mem_readyNames h
  exact ⟨hsound.plain_of_entryAt he name (by simp), hpage⟩

theorem nodup_readyNames (hsound : FileTree.Sound d.tree) : (readyNames site d).Nodup := by
  rcases readyNames_cases site d with hnone | ⟨dir, -, hready⟩
  · rw [hnone]
    exact List.nodup_nil
  · rw [hready]
    have hperm := List.mergeSort_perm (FileTree.names dir d.tree) fun a b => !Text.before b a
    exact (hperm.nodup_iff.2 (FileTree.Once.nodup_names hsound.once dir)).filter _

theorem outcome_publish_of_list {base : BaseAddress} {names : List Text}
    (h : w.disk.list site.bundledRoot = .ok names) :
    outcome (publish site base) w = outcome ((names.filter isPageName).mapM (publishPage site base)) w := by
  unfold publish
  rw [Job.outcome_bind, Job.outcome_ask, Disk.isDirectory_of_list h]
  simp only [Except.mapError, if_true]
  rw [Job.outcome_bind, Job.outcome_ask, h]
  rfl

theorem course_of_publish {base : BaseAddress} {outputs : List Path}
    (h : outcome (publish site base) w = (.ok outputs, w')) : ∃ w₁, w₁.disk = w.disk ∧
      Course (fun name target w w' => outcome (publishPage site base name) w = (.ok target, w'))
        (readyNames site w.disk) outputs w₁ w' := by
  unfold readyNames
  cases hlist : w.disk.list site.bundledRoot with
  | ok names =>
    rw [outcome_publish_of_list hlist] at h
    exact ⟨w, rfl, Job.course_of_mapM h⟩
  | error e =>
    unfold publish at h
    obtain ⟨there, w₁, hask, hrest⟩ := Job.exists_of_bind_ok h
    obtain ⟨-, hw₁⟩ := Job.of_ask_ok hask
    rw [hw₁] at hrest
    cases there with
    | true =>
      obtain ⟨names, w₂, hnames, -⟩ := Job.exists_of_bind_ok hrest
      rw [(Job.of_ask_ok hnames).1] at hlist
      cases hlist
    | false =>
      obtain ⟨_, w₂, hnote, hrest⟩ := Job.exists_of_bind_ok hrest
      obtain ⟨-, hdisk⟩ := Job.of_look_ok hnote
      cases hrest
      exact ⟨w', hdisk, .nil _⟩

theorem not_isPageName_tmpDir (hsite : Usual site home) : isPageName site.tmpDir = false := by
  rw [hsite.tmpDir]
  decide

theorem spares_outputPage (hsite : Usual site home) (name : Text) :
    Spares (OutputPage site home) (home ++ [site.outDir] ++ [site.tmpDir] ++ [name]) := by
  rintro l hl ⟨other, hpage, rfl⟩
  rw [outputAt, List.append_assoc (home ++ [site.outDir]), List.prefix_append_right_inj, List.singleton_append,
    List.cons_prefix_cons] at hl
  rw [hl.1, not_isPageName_tmpDir hsite] at hpage
  cases hpage

theorem bundledRoot_child (hsite : Usual site home) (name : Text) :
    site.bundledRoot.child name = .ofLocation (home ++ [site.outDir] ++ [site.tmpDir] ++ [name]) := by
  rw [hsite.bundledRoot_eq]
  rfl

theorem outRoot_child (hsite : Usual site home) (name : Text) :
    site.outRoot.child name = .ofLocation (outputAt site home name) := by
  rw [hsite.placed.outRoot_eq]
  rfl

theorem published (hsite : Usual site home) (hground : Ground home w.disk) {outputs : List Path}
    (h : outcome (publish site site.baseUrl) w = (.ok outputs, w')) :
    Changes (OutputPage site home) Nowhere w.disk w'.disk ∧
      (∀ name ∈ readyNames site w.disk, PagePublished site home w.disk name w'.disk) ∧
      outputs = (readyNames site w.disk).map site.outRoot.child := by
  obtain ⟨w₁, hdisk, hcourse⟩ := course_of_publish h
  have hplain := hground.plain.child hsite.plain_outDir
  have hstart : Changes (OutputPage site home) Nowhere w.disk w₁.disk := by
    rw [hdisk]
    exact .refl _ _ _
  have hwrite : ∀ name ∈ readyNames site w.disk, ∀ target v v',
      outcome (publishPage site site.baseUrl name) v = (.ok target, v') →
        Changes (· = outputAt site home name) Nowhere v.disk v'.disk := by
    intro name hname target v v' hrun
    obtain ⟨base, html, -, -, hwrite, -⟩ := exists_of_publishPage hrun
    rw [outRoot_child hsite] at hwrite
    exact Disk.changes_writeBytes (hplain.child (plain_of_readyNames hground.sound hname).1) rfl hwrite
  have hpage : ∀ name ∈ readyNames site w.disk, ∀ l, l = outputAt site home name → OutputPage site home l :=
    fun name hname l hl => ⟨name, (plain_of_readyNames hground.sound hname).2, hl⟩
  rw [← and_assoc]
  refine ⟨hcourse.each (I := fun v => Changes (OutputPage site home) Nowhere w.disk v.disk)
    (fun name v => PagePublished site home w.disk name v.disk) (nodup_readyNames hground.sound)
    (fun name hname target v v' hv hrun => ?_) (fun name hname other hother hne target v v' _ hpost hrun => ?_)
    hstart, ?_⟩
  · have hname' := (plain_of_readyNames hground.sound hname).1
    refine ⟨hv.trans ((hwrite name hname target v v' hrun).widen (hpage name hname)), ?_⟩
    obtain ⟨base, html, hbase, hhtml, hwritten, -⟩ := exists_of_publishPage hrun
    refine ⟨base, html, hbase, ?_, ?_⟩
    · -- the pages published before do not touch the bundled ones
      rw [← hhtml, bundledRoot_child hsite]
      refine Reading.textIn_congr (hv.readBytes_eq ?_ (spares_outputPage hsite name) (spares_nowhere _)).symm
      exact (hplain.child hsite.plain_tmpDir).child hname'
    · rw [outRoot_child hsite] at hwritten
      exact Disk.readBytes_writeBytes hwritten
  · obtain ⟨base, html, hbase, hhtml, hread⟩ := hpost
    refine ⟨base, html, hbase, hhtml, ?_⟩
    have hloc : PlainNames (outputAt site home name) := hplain.child (plain_of_readyNames hground.sound hname).1
    rw [(hwrite other hother target v v' hrun).readBytes_eq hloc (spares_name hne) (spares_nowhere _), hread]
  · refine hcourse.map_eq (I := fun _ => True) (fun name _ target v v' _ hrun => ?_) trivial
    obtain ⟨base, html, -, -, -, htarget⟩ := exists_of_publishPage hrun
    exact ⟨trivial, htarget⟩

theorem mem_readyNames (hsite : Usual site home) (hhome : PlainNames home) {route : Text}
    (hname : Path.PlainName (fileOf route)) {bytes : Bytes}
    (h : d.readBytes (.ofLocation (bundledAt site home route)) = .ok bytes) : fileOf route ∈ readyNames site d := by
  have hplain := PlainNames.bundledAt hsite hhome hname
  obtain ⟨loc, stamp, hplace⟩ := Disk.place_of_readBytes h
  have hloc : loc = bundledAt site home route := Disk.location_ofLocation hplain hplace
  subst hloc
  have hentry := Disk.entryAt_of_place hplain.straight hplace
  have hchild : site.bundledRoot.child (fileOf route) = .ofLocation (bundledAt site home route) :=
    bundledRoot_child hsite _
  rw [← hchild] at hplace
  have hlist := Disk.isDirectory_of_place_child hname.not_dots hname.noNul hplace
  rw [hsite.bundledRoot_eq] at hlist
  have hdir := Disk.place_of_isDirectory ((hhome.child hsite.plain_outDir).child hsite.plain_tmpDir) hlist
  rw [readyNames, hsite.bundledRoot_eq, Disk.list, hdir]
  refine List.mem_filter.2 ⟨?_, Text.endsWith_append route _⟩
  rw [Text.sorted, List.mem_mergeSort, FileTree.mem_names]
  exact ⟨_, hentry⟩

/-! ## Cleaning up -/

/-- The locations at or below the directories that are only needed during a build. -/
def Temporary (site : Site) (home : Location) : Location → Prop :=
  fun l => home ++ [site.tmpDir] <+: l ∨ home ++ [site.outDir] ++ [site.tmpDir] <+: l

theorem Temporary.workplace {l : Location} (h : Temporary site home l) : Workplace site home l := by
  rcases h with htmp | hbundled
  · exact ⟨site.tmpDir, by simp [outputNames], htmp⟩
  · exact ⟨site.outDir, by simp [outputNames], (List.prefix_append _ _).trans hbundled⟩

theorem changes_cleanUp (hsite : Usual site home) (hhome : PlainNames home) {artifacts : Option Artifacts}
    (hroots : ∀ a ∈ artifacts, a.tmpRoots = [site.tmpRoot]) {r : Except Failure Unit}
    (h : outcome (cleanUp site artifacts) w = (r, w')) : Changes (Temporary site home) Nowhere w.disk w'.disk := by
  have hremove : ∀ {dir : Location}, PlainNames dir → (∀ l, dir <+: l → Temporary site home l) →
      Couples (Disk.Twin (Changes (Temporary site home) Nowhere w.disk)) (discard (.ofLocation dir)) := by
    intro dir hdir hbelow
    refine couples_discard ?_ (Keeps.changeBySteps fun d hd => hd.trans ?_).couples
    · rintro d _ ⟨rfl, -⟩
      rfl
    · exact (Disk.changes_removeTree hdir).widen hbelow
  have hcleaned : Couples (Disk.Twin (Changes (Temporary site home) Nowhere w.disk)) (cleanUp site artifacts) := by
    refine couples_cleanUp hroots fun p hp => ?_
    rcases List.mem_pair.1 hp with rfl | rfl
    · rw [hsite.bundledRoot_eq]
      exact hremove ((hhome.child hsite.plain_outDir).child hsite.plain_tmpDir) fun l hl => .inr hl
    · rw [show site.tmpRoot = .ofLocation (home ++ [site.tmpDir]) from hsite.placed.tmpRoot_eq]
      exact hremove (hhome.child hsite.plain_tmpDir) fun l hl => .inl hl
  have hkept := hcleaned.keeps w (.refl _ _ _)
  rw [h] at hkept
  exact hkept

theorem spares_temporary (hsite : Usual site home) {name : Text} (hname : isPageName name = true) :
    Spares (Temporary site home) (outputAt site home name) := by
  rintro l hl (htmp | hbundled)
  · refine not_beneath_of_ne hsite.tmpDir_ne_outDir (htmp.trans hl) ⟨site.outDir, List.mem_singleton_self _, ?_⟩
    exact List.prefix_append _ _
  · have hlen := (hbundled.trans hl).eq_of_length (by simp [outputAt])
    rw [← List.singleton_inj.1 (List.append_cancel_left hlen), not_isPageName_tmpDir hsite] at hname
    cases hname

end Sitewright.Build
