import Sitewright.Proofs.Build.Assets
import Sitewright.Proofs.File.Mirror
/-!
# Bundling again

The bundler that copies may be run several times, on the same pages or on others. The first run makes the
directories, those of the public files among them; the later ones only write files. So every run finds the same
sources, and what it makes of a page does not depend on what has been bundled before.

* `Furnished`: the directories are there that a run makes before it bundles pages.
* `Bundles`: pages that refer to nothing in the output directory are bundled, each to a file of its own there.
* `Revisits`: a further run that has nothing else to put at the place of a page.

Main statement: `bundleByCopying_faithful`.
-/
set_option autoImplicit false

namespace Sitewright.Build

open Disk (Changes Ground Mirrored Landing SameFiles spares_nowhere)
open Job (outcome)
open Reading (textIn)

variable {site : Site} {home : Location} {d d' : Disk} {w w' v v' : Workspace} {made : Artifacts}
  {item : Text × Path} {s source : Text}

/-! ## What is done before pages are bundled -/

theorem of_copyPublic {o : Unit} (h : outcome (copyPublic site) w = (.ok o, w')) :
    w.disk.isDirectory site.publicRoot = .ok false ∧ w'.disk = w.disk ∨
      w.disk.isDirectory site.publicRoot = .ok true ∧
        w.disk.copyTree site.publicRoot site.outRoot = (w'.disk, .ok ()) := by
  unfold copyPublic at h
  obtain ⟨there, w₁, hask, h⟩ := Job.exists_of_bind_ok h
  obtain ⟨hthere, rfl⟩ := Job.of_ask_ok hask
  cases there with
  | false =>
    cases h
    exact .inl ⟨hthere, rfl⟩
  | true =>
    obtain ⟨v, w₂, hget, h⟩ := Job.exists_of_bind_ok h
    cases hget
    rcases hcopy : w₁.disk.copyTree site.publicRoot site.outRoot with ⟨d, (problem | notes) | u⟩
    · rw [hcopy] at h
      cases h
    · rw [hcopy] at h
      cases h
    · rw [hcopy] at h
      cases h
      exact .inr ⟨hthere, rfl⟩

theorem of_copyStyleIf {copyable : Bool} {styles : List Path}
    (h : outcome (copyStyleIf site copyable) w = (.ok styles, w')) :
    w'.disk = w.disk ∨
      ∃ bytes, w.disk.writeBytes ((assetsRoot site).join site.globalStyleFile) bytes = .ok w'.disk := by
  unfold copyStyleIf at h
  cases copyable with
  | true =>
    obtain ⟨v, w₁, hget, h⟩ := Job.exists_of_bind_ok h
    cases hget
    split at h
    · obtain ⟨_, _, hthrow, -⟩ := Job.exists_of_bind_ok h
      cases hthrow
    · obtain ⟨_, w₂, hcopy, h⟩ := Job.exists_of_bind_ok h
      cases h
      obtain ⟨bytes, -, hwrite⟩ := Disk.exists_of_copyBytes (Job.of_change_ok hcopy)
      exact .inr ⟨bytes, hwrite⟩
  | false =>
    obtain ⟨there, w₁, hask, h⟩ := Job.exists_of_bind_ok h
    obtain ⟨-, rfl⟩ := Job.of_ask_ok hask
    cases there with
    | true =>
      obtain ⟨_, w₂, hnote, h⟩ := Job.exists_of_bind_ok h
      cases h
      exact .inl (Job.of_look_ok hnote).2
    | false =>
      cases h
      exact .inl rfl

theorem of_copyGlobalStyle {styles : List Path}
    (h : outcome (copyGlobalStyle site (assetsRoot site)) w = (.ok styles, w')) :
    w'.disk = w.disk ∨
      ∃ bytes, w.disk.writeBytes ((assetsRoot site).join site.globalStyleFile) bytes = .ok w'.disk := by
  rw [copyGlobalStyle_eq] at h
  obtain ⟨copyable, w₁, hcopyable, h⟩ := Job.exists_of_bind_ok h
  have hw₁ : w₁ = w := by
    split at hcopyable
    · exact (Job.of_ask_ok hcopyable).2
    · cases hcopyable
      rfl
  exact hw₁ ▸ of_copyStyleIf h

theorem exists_of_prepareOutput {styles : List Path} (h : outcome (prepareOutput site) w = (.ok styles, w')) :
    ∃ d₁ d₂ d₃, w.disk.ensureDirectories (assetsRoot site) = (d₁, .ok ()) ∧
      d₁.ensureDirectories site.bundledRoot = (d₂, .ok ()) ∧
      (d₂.isDirectory site.publicRoot = .ok false ∧ d₃ = d₂ ∨ d₂.isDirectory site.publicRoot = .ok true ∧
        d₂.copyTree site.publicRoot site.outRoot = (d₃, .ok ())) ∧
      (w'.disk = d₃ ∨ ∃ bytes, d₃.writeBytes ((assetsRoot site).join site.globalStyleFile) bytes = .ok w'.disk) := by
  unfold prepareOutput at h
  obtain ⟨_, w₁, hassets, h⟩ := Job.exists_of_bind_ok h
  obtain ⟨_, w₂, hbundled, h⟩ := Job.exists_of_bind_ok h
  obtain ⟨_, w₃, hpublic, h⟩ := Job.exists_of_bind_ok h
  exact ⟨w₁.disk, w₂.disk, w₃.disk, Job.of_changeBySteps_ok hassets, Job.of_changeBySteps_ok hbundled,
    of_copyPublic hpublic, of_copyGlobalStyle h⟩

/-! ## The directories -/

/-- The directories are there that a run makes before it bundles pages: those of the assets and of the bundled pages,
and a counterpart of every public one. -/
structure Furnished (site : Site) (home : Location) (d : Disk) : Prop where
  ground : Ground home d
  out : PlainNames (home ++ [site.outDir])
  assets : d.isDirectory (assetsRoot site) = .ok true
  bundled : d.isDirectory site.bundledRoot = .ok true
  mirrored : Mirrored (home ++ [site.publicDir]) (home ++ [site.outDir]) d

theorem FillsOutput.ground (h : FillsOutput site home d d') (hground : Ground home d) : Ground home d' :=
  hground.step (h.mono (fun _ hc => hc.elim) fun _ hl => .inl hl : Changes (Beneath home [site.outDir]) Nowhere d d')

theorem Furnished.step (h : Furnished site home d) (hd : FillsOutput site home d d') : Furnished site home d' :=
  ⟨FillsOutput.ground hd h.ground, h.out, hd.isDirectory_iff.2 h.assets, hd.isDirectory_iff.2 h.bundled,
    hd.mirrored h.mirrored⟩

/-- The locations that a run may write to before it bundles pages, where the directories are there already. -/
def Restored (site : Site) (home : Location) (d : Disk) : Location → Prop := fun l =>
  Landing (home ++ [site.publicDir]) (home ++ [site.outDir]) d l ∨ l = assetAt site home site.globalStyleFile

theorem Restored.out {l : Location} (h : Restored site home d l) : Beneath home [site.outDir] l := by
  rcases h with hlanding | rfl
  · exact ⟨site.outDir, List.mem_singleton_self _, hlanding.below⟩
  · exact Beneath.above (assetsPart_assetAt _)

section

variable (hplaced : Placed site home) (hpublic : Path.PlainName site.publicDir)
include hplaced hpublic

theorem publicRoot_eq : site.publicRoot = .ofLocation (home ++ [site.publicDir]) := by
  rw [Site.publicRoot, hpublic.join_eq, hplaced.root]
  rfl

omit hpublic in
theorem outRoot_eq : site.outRoot = .ofLocation (home ++ [site.outDir]) := hplaced.outRoot_eq

/-- Copying the public files, if there are any, leaves the directories and a counterpart of every public one. -/
theorem mirrored_public (hground : Ground home d) (hout : PlainNames (home ++ [site.outDir]))
    (h : d.isDirectory site.publicRoot = .ok false ∧ d' = d ∨
      d.isDirectory site.publicRoot = .ok true ∧ d.copyTree site.publicRoot site.outRoot = (d', .ok ())) :
    Ground home d' ∧ Disk.Retains Nowhere d d' ∧ Mirrored (home ++ [site.publicDir]) (home ++ [site.outDir]) d' := by
  have hsrc := hground.plain.child hpublic
  rcases h with ⟨hnone, rfl⟩ | ⟨-, hcopy⟩
  · refine ⟨hground, .refl _ _, fun rel hrel hdir => ?_⟩
    rw [publicRoot_eq hplaced hpublic,
      Disk.isDirectory_above (List.forall_mem_append.2 ⟨hsrc, hrel⟩) hdir] at hnone
    cases hnone
  · have hchange := Disk.changes_copyTree_beneath (S := Nowhere) hground site.publicRoot hplaced.outRoot
    have hretains := Disk.retains_copyTree (T := Nowhere) d site.publicRoot site.outRoot
    rw [hcopy] at hchange hretains
    refine ⟨hground.step hchange, hretains, ?_⟩
    by_cases hsame : site.publicDir = site.outDir
    · rw [hsame]
      exact fun rel _ hdir => hdir
    · rw [publicRoot_eq hplaced hpublic, outRoot_eq hplaced] at hcopy
      refine Disk.mirrored_copyTree hsrc hout (List.prefix_append _ _) (fun rel => ?_)
        ⟨hground.sound, hground.standing⟩ hcopy
      rw [List.append_assoc]
      refine (spares_beneath_of_not_mem (List.mem_singleton.not.2 hsame) rel).mono fun l hl => ?_
      exact Disk.beneath_of_between ⟨site.outDir, List.mem_singleton_self _, List.prefix_refl _⟩ hl.1 hl.2.1 hl.2.2

omit hpublic in
theorem changes_writeStyle (hhome : PlainNames home) {bytes : Bytes}
    (h : d.writeBytes ((assetsRoot site).join site.globalStyleFile) bytes = .ok d') :
    Changes Nowhere (· = assetAt site home site.globalStyleFile) d d' :=
  changes_writeAsset hplaced hhome (hplaced.styleName.append (by decide) (by decide)) h

/-- Once a run has prepared the output directory, the directories are there. -/
theorem furnished_of_prepareOutput (hground : Ground home w.disk) {styles : List Path}
    (h : outcome (prepareOutput site) w = (.ok styles, w')) : Furnished site home w'.disk := by
  obtain ⟨d₁, d₂, d₃, hassets, hbundled, hcopied, hstyle⟩ := exists_of_prepareOutput h
  have hground₁ := hground.ensureDirectories hplaced.assetsRoot hassets
  have hground₂ := hground₁.ensureDirectories hplaced.bundledRoot hbundled
  have hretains₂ : Disk.Retains Nowhere d₁ d₂ := by
    have hretains := Disk.retains_ensureDirectories (T := Nowhere) d₁ site.bundledRoot
    rwa [hbundled] at hretains
  have hassetsRoot := hplaced.assetsRoot
  have hbundledRoot := hplaced.bundledRoot
  rw [hplaced.assetsRoot_eq] at hassets hassetsRoot
  rw [hplaced.bundledRoot_eq] at hbundled hbundledRoot
  have hplain := Disk.plain_of_ensureDirectories hground.plain hassetsRoot hassets
  have hplain' := Disk.plain_of_ensureDirectories hground.plain hbundledRoot hbundled
  have hout : PlainNames (home ++ [site.outDir]) := hplain.of_prefix (List.prefix_append _ _)
  obtain ⟨hground₃, hretains₃, hmirrored⟩ := mirrored_public hplaced hpublic hground₂ hout hcopied
  have hfurnished : Furnished site home d₃ := by
    refine ⟨hground₃, hout, ?_, ?_, hmirrored⟩
    · rw [hplaced.assetsRoot_eq]
      exact (hretains₂.trans hretains₃).isDirectory hplain (spares_nowhere _)
        (Disk.isDirectory_of_ensured hplain hassets)
    · rw [hplaced.bundledRoot_eq]
      exact hretains₃.isDirectory hplain' (spares_nowhere _) (Disk.isDirectory_of_ensured hplain' hbundled)
  rcases hstyle with hsame | ⟨bytes, hwrite⟩
  · exact hsame ▸ hfurnished
  · refine hfurnished.step ((changes_writeStyle hplaced hground.plain hwrite).mono (fun _ hc => hc) ?_)
    rintro l rfl
    exact .inr (Beneath.above (assetsPart_assetAt _))

/-- Where the directories are there already, preparing the output directory writes files only. -/
theorem Furnished.changes_prepareOutput (h : Furnished site home w.disk) {styles : List Path}
    (hrun : outcome (prepareOutput site) w = (.ok styles, w')) :
    Changes Nowhere (Restored site home w.disk) w.disk w'.disk := by
  obtain ⟨d₁, d₂, d₃, hassets, hbundled, hcopied, hstyle⟩ := exists_of_prepareOutput hrun
  obtain rfl : d₁ = w.disk := by
    rw [Disk.ensureDirectories_of_isDirectory h.assets] at hassets
    exact (congrArg Prod.fst hassets).symm
  obtain rfl : d₂ = w.disk := by
    rw [Disk.ensureDirectories_of_isDirectory h.bundled] at hbundled
    exact (congrArg Prod.fst hbundled).symm
  have hmerged : Changes Nowhere (Restored site home w.disk) w.disk d₃ := by
    rcases hcopied with ⟨-, rfl⟩ | ⟨-, hcopy⟩
    · exact .refl _ _ _
    · rw [publicRoot_eq hplaced hpublic, outRoot_eq hplaced] at hcopy
      have hchange := Disk.changes_copyTree_of_mirrored (h.ground.plain.child hpublic) h.out h.ground.sound h.mirrored
      rw [hcopy] at hchange
      exact hchange.mono (fun _ hc => hc) fun _ hl => .inr (.inl hl)
  rcases hstyle with hsame | ⟨bytes, hwrite⟩
  · exact hsame ▸ hmerged
  · exact hmerged.trans ((changes_writeStyle hplaced h.ground.plain hwrite).mono (fun _ hc => hc) fun _ hl =>
      .inr (.inr hl))

end

/-! ## Runs -/

/-- Pages that go to files of their own in the output directory, and refer to nothing there, have been bundled. -/
structure Bundles (site : Site) (home : Location) (made : Artifacts) (w w' : Workspace) : Prop where
  apart : Apart site home made.pages
  sources : Sources site home w'.disk made.pages
  done : ∃ b, outcome (bundleByCopying site made) w = (.ok b, w')

/-- Some pages have been bundled. -/
def Rebundles (site : Site) (home : Location) (w w' : Workspace) : Prop := ∃ made, Bundles site home made w w'

/-- What the disk is once the output directory has been prepared. -/
def preparedDisk (site : Site) (w : Workspace) : Disk := (outcome (prepareOutput site) w).2.disk

namespace Bundles

section

variable (hplaced : Placed site home) (hpublic : Path.PlainName site.publicDir) (h : Bundles site home made w w')
include hplaced h

theorem course (hground : Ground home w.disk) : ∃ styles w₁ copied units,
    outcome (prepareOutput site) w = (.ok styles, w₁) ∧
      Course (BundlesPage site) made.pages units (w₁, ⟨[], styles⟩) (w', copied) ∧
      FillsOutput site home w₁.disk w'.disk := by
  obtain ⟨b, hrun⟩ := h.done
  obtain ⟨styles, w₁, copied, units, hprepare, hcourse⟩ := exists_of_bundleByCopying hrun
  exact ⟨styles, w₁, copied, units, hprepare, hcourse,
    fillsOutput_bundlesPages hplaced hground.plain h.apart hcourse⟩

theorem changes (hground : Ground home w.disk) : Changes (Beneath home [site.outDir]) Nowhere w.disk w'.disk := by
  obtain ⟨styles, w₁, copied, units, hprepare, -, hfills⟩ := h.course hplaced hground
  exact (changes_prepareOutput hplaced hground hprepare).trans (hfills.mono (fun _ hc => hc.elim) fun _ hl => .inl hl)

include hpublic

theorem furnished (hground : Ground home w.disk) :
    Furnished site home w'.disk ∧ FillsOutput site home (preparedDisk site w) w'.disk := by
  obtain ⟨styles, w₁, copied, units, hprepare, -, hfills⟩ := h.course hplaced hground
  have hprepared : preparedDisk site w = w₁.disk := by rw [preparedDisk, hprepare]
  rw [hprepared]
  exact ⟨(furnished_of_prepareOutput hplaced hpublic hground hprepare).step hfills, hfills⟩

theorem changes_of_furnished (hfurnished : Furnished site home w.disk) :
    Changes Nowhere (fun l => Restored site home w.disk l ∨ BundledAsset site home l ∨
      ∃ item ∈ made.pages, l = targetOf site item.1) w.disk w'.disk := by
  obtain ⟨styles, w₁, copied, units, hprepare, hcourse, -⟩ := h.course hplaced hfurnished.ground
  have hprepared := hfurnished.changes_prepareOutput hplaced hpublic hprepare
  have hbundled := changes_bundlesPages hplaced hfurnished.ground.plain hcourse
  exact (hprepared.mono (fun _ hc => hc) fun _ hl => .inr (.inl hl)).trans
    (hbundled.mono (fun _ hc => hc) fun _ hl => .inr (.inr hl))

theorem fillsOutput (hfurnished : Furnished site home w.disk) : FillsOutput site home w.disk w'.disk := by
  refine (h.changes_of_furnished hplaced hpublic hfurnished).mono (fun _ hc => hc) fun l hl => .inr ?_
  rcases hl with hrestored | hasset | ⟨item, hitem, rfl⟩
  · exact hrestored.out
  · exact Beneath.above hasset.assetsPart
  · exact h.apart.inside item hitem

omit hpublic

theorem pages (hground : Ground home w.disk) (hitem : item ∈ made.pages) : ∃ s, textIn w'.disk item.2 = .ok s ∧
    w'.disk.readBytes (pageFile site.bundledRoot item.1) = .ok (Utf8.encode (bundledText site w'.disk s)) ∧
    (Unambiguous site w'.disk made.pages → ∀ file bytes, RefersTo site s file → w'.disk.readBytes file = .ok bytes →
      w'.disk.readBytes ((assetsRoot site).join (bundledName file bytes)) = .ok bytes) := by
  obtain ⟨styles, w₁, copied, units, -, hcourse, -⟩ := h.course hplaced hground
  obtain ⟨hstocked, hbundled⟩ := bundledCourse hplaced hground.plain h.apart hcourse (fun _ => rfl) h.sources
  obtain ⟨s, hs, hpage, hregistered⟩ := hbundled item hitem
  exact ⟨s, hs, hpage, fun hunambiguous file bytes hfile hread =>
    hstocked.stored hunambiguous file bytes (hregistered file hfile bytes hread) hread⟩

end

end Bundles

/-- A text becomes the same on two disks that have the same files, where it refers to none in the output directory. -/
theorem bundledText_sameFiles (h : SameFiles (Beneath home [site.outDir]) d d')
    (hd : ∀ file bytes, RefersTo site s file → d.readBytes file = .ok bytes →
      ¬ Beneath home [site.outDir] (file.resolve d.here))
    (hd' : ∀ file bytes, RefersTo site s file → d'.readBytes file = .ok bytes →
      ¬ Beneath home [site.outDir] (file.resolve d'.here)) : bundledText site d' s = bundledText site d s := by
  refine Scan.substitute_congr fun found source hmark => ?_
  unfold replacement
  simp only
  split
  · rename_i hsuffix
    have hrefers : RefersTo site s (sourceOf site found.address) :=
      ⟨List.elem_iff.1 hsuffix, found, mem_marks_of_mark hmark, rfl⟩
    cases hread : d.readBytes (sourceOf site found.address) with
    | ok bytes => rw [(h.read _ _ (hd _ bytes hrefers hread)).2 hread]
    | error e =>
      cases hread' : d'.readBytes (sourceOf site found.address) with
      | error e' => rfl
      | ok bytes =>
        rw [(h.symm.read _ _ (hd' _ bytes hrefers hread')).2 hread'] at hread
        cases hread
  · rfl

/-! ## Several runs -/

/-- A further run that has nothing else to put at the place of a page: no other page goes there, and the public
directory holds nothing of that name. -/
def Revisits (site : Site) (home : Location) (item : Text × Path) (w w' : Workspace) : Prop :=
  ∃ made, Bundles site home made w w' ∧
    (∀ other ∈ made.pages, targetOf site other.1 = targetOf site item.1 → other = item) ∧
    ¬ Landing (home ++ [site.publicDir]) (home ++ [site.outDir]) w.disk (targetOf site item.1)

theorem Revisits.rebundles (h : Revisits site home item w w') : Rebundles site home w w' := by
  obtain ⟨made, hmade, -⟩ := h
  exact ⟨made, hmade⟩

section

open Relation (TransGen ReflTransGen)

variable (hplaced : Placed site home) (hpublic : Path.PlainName site.publicDir) (hground : Ground home w.disk)
include hplaced hpublic hground

theorem furnished_of_runs (h : TransGen (Rebundles site home) w v) :
    Furnished site home v.disk ∧ FillsOutput site home (preparedDisk site w) v.disk := by
  induction h with
  | single hrun =>
    obtain ⟨made, hmade⟩ := hrun
    exact hmade.furnished hplaced hpublic hground
  | tail hruns hrun ih =>
    obtain ⟨made, hmade⟩ := hrun
    have hfills := hmade.fillsOutput hplaced hpublic ih.1
    exact ⟨ih.1.step hfills, ih.2.trans hfills⟩

theorem sameFiles_of_runs (h : TransGen (Rebundles site home) w v) (h' : TransGen (Rebundles site home) w v') :
    SameFiles (Beneath home [site.outDir]) v.disk v'.disk :=
  (furnished_of_runs hplaced hpublic hground h).2.sameFiles.symm.trans
    (furnished_of_runs hplaced hpublic hground h').2.sameFiles

theorem ground_of_runs (h : ReflTransGen (Rebundles site home) w v) : Ground home v.disk := by
  rcases Relation.reflTransGen_iff_eq_or_transGen.1 h with rfl | hruns
  · exact hground
  · exact (furnished_of_runs hplaced hpublic hground hruns).1.ground

theorem page_of_runs {made' : Artifacts} {u u' : Workspace} (hv : ReflTransGen (Rebundles site home) w v)
    (h : Bundles site home made v v') (hu : ReflTransGen (Rebundles site home) w u) (h' : Bundles site home made' u u')
    (hitem : item ∈ made.pages) (hitem' : item ∈ made'.pages) :
    u'.disk.readBytes (pageFile site.bundledRoot item.1) = v'.disk.readBytes (pageFile site.bundledRoot item.1) := by
  have hsame := sameFiles_of_runs hplaced hpublic hground (.tail' hv ⟨made, h⟩) (.tail' hu ⟨made', h'⟩)
  obtain ⟨s, hs, hpage, -⟩ := h.pages hplaced (ground_of_runs hplaced hpublic hground hv) hitem
  obtain ⟨s', hs', hpage', -⟩ := h'.pages hplaced (ground_of_runs hplaced hpublic hground hu) hitem'
  obtain rfl : s = s' := by
    rw [(hsame.textIn_iff (h.sources.inputs item hitem)).2 hs] at hs'
    exact Except.ok.inj hs'
  rw [hpage, hpage', bundledText_sameFiles hsame]
  · exact fun file bytes hfile hread => h.sources.referred file bytes ⟨item, hitem, s, hs, hfile⟩ hread
  · exact fun file bytes hfile hread => h'.sources.referred file bytes ⟨item, hitem', s, hs', hfile⟩ hread

/-- What has been made of a page stays through further runs that have nothing else to put at its place. -/
theorem page_of_revisits (h : Bundles site home made w w') (hitem : item ∈ made.pages)
    (hruns : ReflTransGen (Revisits site home item) w' v) :
    v.disk.readBytes (pageFile site.bundledRoot item.1) = w'.disk.readBytes (pageFile site.bundledRoot item.1) := by
  induction hruns with
  | refl => rfl
  | @tail u u' hu hrun ih =>
    have hruns : TransGen (Rebundles site home) w u := .head' ⟨made, h⟩ (hu.lift id fun _ _ => Revisits.rebundles)
    obtain ⟨made', h', honly, hlanding⟩ := hrun
    by_cases hin : item ∈ made'.pages
    · exact page_of_runs hplaced hpublic hground .refl h hruns.to_reflTransGen h' hitem hin
    · have hfurnished := (furnished_of_runs hplaced hpublic hground hruns).1
      obtain ⟨s, -, hpage, -⟩ := h.pages hplaced hground hitem
      rw [hpage] at ih ⊢
      refine ((h'.changes_of_furnished hplaced hpublic hfurnished).sameFiles.read _ _ ?_).2 ih
      rw [resolve_pageFile hplaced]
      rintro ((hpublic | hstyle) | ⟨name, hname, hasset⟩ | ⟨other, hother, htarget⟩)
      · exact hlanding hpublic
      · exact assetAt_ne_targetOf ⟨".css".toList, by decide, List.suffix_append _ _⟩ _ hstyle.symm
      · exact assetAt_ne_targetOf hname _ hasset.symm
      · exact hin (honly other hother htarget.symm ▸ hother)

end

/-- A run of the bundler that copies, on pages that go to files of their own in the output directory and refer to no
file there, with public files in a directory of its own. Nothing else is touched. Of each page the text is written
with every rooted reference to a file that is bundled replaced, and nothing else; the file is named after its
location and what it holds, and if fingerprints tell the files apart, a file of that name is there and holds the
same. What is made of a page does not depend on the pages beside it, their order, or what has been bundled before,
and it stays while further runs have nothing else to put in its place. -/
theorem bundleByCopying_faithful (site : Site) (home : Location) (made : Artifacts) (w w' : Workspace)
    (hplaced : Placed site home) (hpublic : Path.PlainName site.publicDir) (hground : Ground home w.disk)
    (h : Bundles site home made w w') (hunambiguous : Unambiguous site w'.disk made.pages) :
    (∀ p, p.anchor ≠ .here → ¬ p.Enters (Beneath home [site.outDir]) → w'.disk.readBytes p = w.disk.readBytes p) ∧
    (∀ item ∈ made.pages, ∃ s, textIn w'.disk item.2 = .ok s ∧
      w'.disk.readBytes (pageFile site.bundledRoot item.1) = .ok (Utf8.encode (bundledText site w'.disk s)) ∧
      ∀ file bytes, RefersTo site s file → w'.disk.readBytes file = .ok bytes →
        bundledName file bytes = bundledName (.ofLocation (file.resolve w'.disk.here)) bytes ∧
          w'.disk.readBytes ((assetsRoot site).join (bundledName file bytes)) = .ok bytes) ∧
    (∀ v made' v', Relation.ReflTransGen (Rebundles site home) w v → Bundles site home made' v v' →
      ∀ item ∈ made.pages, item ∈ made'.pages →
        v'.disk.readBytes (pageFile site.bundledRoot item.1) = w'.disk.readBytes (pageFile site.bundledRoot item.1)) ∧
    ∀ item ∈ made.pages, ∀ v, Relation.ReflTransGen (Revisits site home item) w' v →
      v.disk.readBytes (pageFile site.bundledRoot item.1) = w'.disk.readBytes (pageFile site.bundledRoot item.1) := by
  refine ⟨fun p habsolute hout => ?_, fun item hitem => ?_, fun v made' v' hv h' item hitem hitem' => ?_,
    fun item hitem v hv => ?_⟩
  · have halike := (h.changes hplaced hground).alikeOutside fun _ hc => hc.elim
    exact halike.readBytes_eq habsolute not_beneath_nil hout id
  · obtain ⟨s, hs, hpage, hstored⟩ := h.pages hplaced hground hitem
    refine ⟨s, hs, hpage, fun file bytes hfile hread => ⟨?_, hstored hunambiguous file bytes hfile hread⟩⟩
    exact (bundledName_resolve hfile.1 _ bytes).symm
  · exact page_of_runs hplaced hpublic hground .refl h hv h' hitem hitem'
  · exact page_of_revisits hplaced hpublic hground h hitem hv

/-! ## Two pages with one script -/

def spelling (route : Text) : Text := if route = "index".toList then "/a.js".toList else "/lib/../a.js".toList

def scriptPage (route : Text) : Text := "<script src=\"".toList ++ spelling route ++ "\">".toList

/-- A project of two pages that refer to the same script, and spell its path differently. -/
def twoSpellings : Workspace where
  disk :=
    { tree :=
        [([], .directory), (["project".toList], .directory),
          (["project".toList, "a.js".toList], .file (Utf8.encode "b".toList) (.seconds 0)),
          (["project".toList, "lib".toList], .directory),
          (["project".toList, "pages".toList], .directory),
          (["project".toList, "pages".toList, "index.html".toList],
            .file (Utf8.encode (scriptPage "index".toList)) (.seconds 0)),
          (["project".toList, "pages".toList, "info.html".toList],
            .file (Utf8.encode (scriptPage "info".toList)) (.seconds 0))],
      here := ["project".toList], clock := 0 }
  log := []

theorem placed_twoSpellings : Placed emptySite ["project".toList] := ⟨rfl, by decide, by decide, by decide, by decide⟩

def scriptPages (routes : List Text) : Artifacts :=
  ⟨routes.map fun route => (route, pageFile emptySite.tmpRoot route), [], []⟩

def afterBundling (routes : List Text) (w : Workspace) : Workspace :=
  (outcome (bundleByCopying emptySite (scriptPages routes)) w).2

/-- Pages and their script are on the disk as they are in that project. -/
structure Intact (routes : List Text) (d : Disk) : Prop where
  pages : ∀ route ∈ routes, textIn d (pageFile emptySite.tmpRoot route) = .ok (scriptPage route)
  script : ∀ route ∈ routes, d.readBytes (sourceOf emptySite (spelling route)) = .ok (Utf8.encode "b".toList)

variable {routes : List Text}

theorem Intact.of_toOption (h : ∀ route ∈ routes,
    (textIn d (pageFile emptySite.tmpRoot route)).toOption = some (scriptPage route) ∧
      (d.readBytes (sourceOf emptySite (spelling route))).toOption = some (Utf8.encode "b".toList)) :
    Intact routes d :=
  ⟨fun route hroute => Reading.eq_ok_of_toOption (h route hroute).1,
    fun route hroute => Reading.eq_ok_of_toOption (h route hroute).2⟩

theorem marks_scriptPage (route : Text) :
    Scan.marks rootedReference (scriptPage route) = [⟨"src".toList, spelling route⟩] := by
  unfold scriptPage spelling
  split <;> decide +kernel

theorem Intact.source_of_referred (h : Intact routes d) {file : Path}
    (hfile : Referred emptySite d (scriptPages routes).pages file) :
    ∃ route ∈ routes, file = sourceOf emptySite (spelling route) := by
  obtain ⟨item, hitem, s, hs, -, found, hfound, rfl⟩ := hfile
  obtain ⟨route, hroute, rfl⟩ := List.mem_map.1 hitem
  rw [h.pages route hroute] at hs
  cases hs
  rw [marks_scriptPage, List.mem_singleton] at hfound
  exact ⟨route, hroute, by rw [hfound]⟩

theorem Intact.unambiguous (h : Intact routes d) : Unambiguous emptySite d (scriptPages routes).pages := by
  intro file file' bytes bytes' hfile hfile' hread hread' _ _ _
  obtain ⟨route, hroute, rfl⟩ := h.source_of_referred hfile
  obtain ⟨route', hroute', rfl⟩ := h.source_of_referred hfile'
  rw [h.script route hroute] at hread
  rw [h.script route' hroute'] at hread'
  exact (Except.ok.inj hread).symm.trans (Except.ok.inj hread')

theorem resolve_source (route : Text) (here : Location) :
    (sourceOf emptySite (spelling route)).resolve here = ["project".toList] ++ ["a.js".toList] := by
  unfold spelling
  split <;> rfl

theorem bundles_of_intact (hroutes : ∀ route ∈ routes, Path.FileName route) (hnodup : routes.Nodup)
    (hintact : Intact routes (afterBundling routes w).disk)
    (hdone : (outcome (bundleByCopying emptySite (scriptPages routes)) w).1.toOption.isSome) :
    Bundles emptySite ["project".toList] (scriptPages routes) w (afterBundling routes w) := by
  have hitems : ∀ item ∈ (scriptPages routes).pages,
      ∃ route ∈ routes, item = (route, pageFile emptySite.tmpRoot route) := by
    intro item hitem
    obtain ⟨route, hroute, rfl⟩ := List.mem_map.1 hitem
    exact ⟨route, hroute, rfl⟩
  refine ⟨.of_fileName placed_twoSpellings (by decide) (fun item hitem => ?_) ?_,
    ⟨fun item hitem => ?_, fun file bytes hfile _ => ?_⟩, ?_⟩
  · obtain ⟨route, hroute, rfl⟩ := hitems item hitem
    exact hroutes route hroute
  · simpa [scriptPages, Keyed.keys, Function.comp_def] using hnodup
  · obtain ⟨route, hroute, rfl⟩ := hitems item hitem
    exact not_beneath_document placed_twoSpellings (by decide) (by decide) (hroutes route hroute) _
  · obtain ⟨route, hroute, rfl⟩ := hintact.source_of_referred hfile
    rw [resolve_source]
    exact spares_beneath_of_not_mem (by decide) [] _ (List.prefix_refl _)
  · obtain ⟨b, hb⟩ := Option.isSome_iff_exists.1 hdone
    exact ⟨b, Job.outcome_eq_of_toOption hb⟩

theorem revisits_of_intact (hpublic : ∀ item ∈ w.disk.tree, ¬ ["project".toList, "public".toList] <+: item.1)
    (h : Bundles emptySite ["project".toList] (scriptPages ["info".toList]) w w') :
    Revisits emptySite ["project".toList] ("index".toList, pageFile emptySite.tmpRoot "index".toList) w w' := by
  refine ⟨_, h, fun other hother hsame => ?_, ?_⟩
  · rw [List.mem_singleton.1 hother] at hsame
    exact absurd hsame (by decide)
  · rintro ⟨name, e, hentry, -⟩
    exact hpublic _ (FileTree.entryAt_mem hentry) (List.prefix_append _ [name])

set_option maxRecDepth 10000 in
/-- Two pages get the same name for their script, and it is there; bundled one after the other in two runs, they are
as if bundled together. -/
theorem bundleByCopying_twoSpellings :
    let both := afterBundling ["index".toList, "info".toList] twoSpellings
    let first := afterBundling ["index".toList] twoSpellings
    let second := afterBundling ["info".toList] first
    let page route := pageFile emptySite.bundledRoot route
    both.disk.readBytes ((assetsRoot emptySite).join "a-3e23e816.js".toList) = .ok (Utf8.encode "b".toList) ∧
      ∀ route ∈ ["index".toList, "info".toList],
        both.disk.readBytes (page route) = .ok (Utf8.encode "<script src=\"./assets/a-3e23e816.js\">".toList) ∧
          second.disk.readBytes (page route) = both.disk.readBytes (page route) := by
  intro both first second page
  have hground : Ground ["project".toList] twoSpellings.disk := ⟨by decide, by decide, by decide⟩
  have hintact : Intact ["index".toList, "info".toList] both.disk := .of_toOption (by decide +kernel)
  have hintact₁ : Intact ["index".toList] first.disk := .of_toOption (by decide +kernel)
  have hintact₂ : Intact ["info".toList] second.disk := .of_toOption (by decide +kernel)
  have hboth : Bundles emptySite ["project".toList] (scriptPages ["index".toList, "info".toList]) twoSpellings both :=
    bundles_of_intact (by decide) (by decide) hintact (by decide +kernel)
  have hfirst : Bundles emptySite ["project".toList] (scriptPages ["index".toList]) twoSpellings first :=
    bundles_of_intact (by decide) (by decide) hintact₁ (by decide +kernel)
  have hsecond : Bundles emptySite ["project".toList] (scriptPages ["info".toList]) first second :=
    bundles_of_intact (by decide) (by decide) hintact₂ (by decide +kernel)
  have hrevisits := revisits_of_intact (w := first) (by decide +kernel) hsecond
  have hbundled : ∀ route ∈ ["index".toList, "info".toList], bundledText emptySite both.disk (scriptPage route) =
      "<script src=\"./assets/a-3e23e816.js\">".toList := by decide +kernel
  have hname : ∀ route ∈ ["index".toList, "info".toList],
      (sourceOf emptySite (spelling route)).suffix ∈ bundledSuffixes ∧
        bundledName (sourceOf emptySite (spelling route)) (Utf8.encode "b".toList) = "a-3e23e816.js".toList := by
    decide +kernel
  clear_value second first both
  obtain ⟨-, hpages, hsame, -⟩ := bundleByCopying_faithful emptySite ["project".toList] _ _ _ placed_twoSpellings
    (by decide) hground hboth hintact.unambiguous
  obtain ⟨-, -, -, hstays⟩ := bundleByCopying_faithful emptySite ["project".toList] _ _ _ placed_twoSpellings
    (by decide) hground hfirst hintact₁.unambiguous
  have hmem : ∀ {routes : List Text} {route : Text}, route ∈ routes →
      (route, pageFile emptySite.tmpRoot route) ∈ (scriptPages routes).pages :=
    fun hroute => List.mem_map.2 ⟨_, hroute, rfl⟩
  have hpage : ∀ route ∈ ["index".toList, "info".toList],
      both.disk.readBytes (page route) = .ok (Utf8.encode "<script src=\"./assets/a-3e23e816.js\">".toList) ∧
        both.disk.readBytes ((assetsRoot emptySite).join "a-3e23e816.js".toList) = .ok (Utf8.encode "b".toList) := by
    intro route hroute
    obtain ⟨s, hs, hpage, hassets⟩ := hpages _ (hmem hroute)
    obtain ⟨hsuffix, hname⟩ := hname route hroute
    rw [hintact.pages route hroute] at hs
    cases hs
    rw [hbundled route hroute] at hpage
    have hrefers : RefersTo emptySite (scriptPage route) (sourceOf emptySite (spelling route)) :=
      ⟨hsuffix, _, (marks_scriptPage route).symm ▸ List.mem_singleton_self _, rfl⟩
    have hasset := (hassets _ _ hrefers (hintact.script route hroute)).2
    rw [hname] at hasset
    exact ⟨hpage, hasset⟩
  have hindex : first.disk.readBytes (page "index".toList) = both.disk.readBytes (page "index".toList) :=
    hsame twoSpellings _ first .refl hfirst _ (hmem (.head _)) (hmem (.head _))
  refine ⟨(hpage _ (.head _)).2, fun route hroute => ⟨(hpage route hroute).1, ?_⟩⟩
  rcases List.mem_pair.1 hroute with rfl | rfl
  · exact (hstays _ (hmem (.head _)) second (.single hrevisits)).trans hindex
  · exact hsame first _ second (.single ⟨_, hfirst⟩) hsecond _ (hmem (.tail _ (.head _))) (hmem (.head _))

end Sitewright.Build
