import Sitewright.Proofs.Build.Publication
import Sitewright.Proofs.File.Copying
import Sitewright.Proofs.Text.Order
/-!
# The pages that are ready

Every file with the name of a page in the directory of bundled pages is published, so a build gives just its pages
only if nothing else gets there. The one way in is a directory of that name among the public files, which are merged
into the output directory.

* `Filling`: what the filling of an output directory touches, if there is no such directory.

Main statement: `readyNames_eq`.
-/
set_option autoImplicit false

namespace Sitewright.Build

open FileTree (entryAt)
open Disk (Changes Ground Spares spares_nowhere)
open Job (outcome Keeps)

def bundledDir (site : Site) (home : Location) : Location := home ++ [site.outDir] ++ [site.tmpDir]

/-- What filling the output directory touches. A file among the public ones with the name of the directory of bundled
pages is put into it. -/
def Filling (site : Site) (home : Location) (routes : List Text) : Location → Prop := fun l =>
  Beneath home [site.outDir] l ∧ (bundledDir site home <+: l → l = bundledDir site home ∨
    l = bundledDir site home ++ [site.tmpDir] ∨ ∃ route ∈ routes, l = bundledAt site home route)

variable {site : Site} {home l : Location} {d d₀ : Disk} {routes : List Text}

theorem AssetsPart.filling (hsite : Usual site home) (h : AssetsPart site home l) : Filling site home routes l := by
  refine ⟨Beneath.above h, fun hbundled => absurd h (not_beneath_of_ne ?_ hbundled)⟩
  rw [hsite.tmpDir]
  decide

theorem outputAt_filling (hsite : Usual site home) {name : Text} (hname : isPageName name = true) :
    Filling site home routes (outputAt site home name) := by
  refine ⟨⟨site.outDir, List.mem_singleton_self _, List.prefix_append _ _⟩, fun hbundled => ?_⟩
  exact absurd (.inr hbundled) (spares_temporary hsite hname _ (List.prefix_refl _))

theorem filling_of_between {name : Text} (h : Disk.Between home (home ++ [site.outDir] ++ [name]) l) :
    Filling site home routes l := by
  obtain ⟨habove, hne, hl⟩ := h
  have hin : ∃ first ∈ [site.outDir], home ++ [first] <+: home ++ [site.outDir] ++ [name] :=
    ⟨site.outDir, List.mem_singleton_self _, List.prefix_append _ _⟩
  refine ⟨Disk.beneath_of_between hin habove hne (.inl hl), fun hbundled => .inl ?_⟩
  exact (hbundled.eq_of_length_le (hl.length_le.trans (by simp [bundledDir]))).symm

theorem plain_bundledDir (hsite : Usual site home) (hhome : PlainNames home) : PlainNames (bundledDir site home) :=
  (hhome.child hsite.plain_outDir).child hsite.plain_tmpDir

theorem ground_of_filling (hground : Ground home d₀) (h : Changes (Filling site home routes) Nowhere d₀ d) :
    Ground home d := hground.step (h.widen (S := Nowhere) fun _ hl => hl.1)

theorem changes_ensureDirectories_output (hsite : Usual site home) (hground : Ground home d) {name : Text}
    (hname : Path.PlainName name) : Changes (Filling site home routes) Nowhere d
      (d.ensureDirectories (.ofLocation (home ++ [site.outDir] ++ [name]))).1 := by
  have htop : home <+: home ++ [site.outDir] ++ [name] := by
    rw [List.append_assoc]
    exact List.prefix_append _ _
  exact (Disk.changes_ensureDirectories ((hground.plain.child hsite.plain_outDir).child hname) htop
    hground.standing).widen fun _ hl => filling_of_between hl

theorem plain_public (hhome : PlainNames home) (hpublic : site.publicDir = "public".toList) :
    PlainNames (home ++ [site.publicDir]) := by
  refine hhome.child ?_
  rw [hpublic]
  decide

theorem spares_public (hsite : Usual site home) (hpublic : site.publicDir = "public".toList) :
    Spares (Beneath home [site.outDir]) (home ++ [site.publicDir] ++ [site.tmpDir]) := by
  rw [List.append_assoc]
  refine spares_beneath_of_not_mem (List.mem_singleton.not.2 ?_) _
  rw [hpublic, hsite.outDir]
  decide

theorem changes_copyTree_public (hsite : Usual site home) (hground : Ground home d)
    (hpublic : site.publicDir = "public".toList)
    (hfile : d.isDirectory (.ofLocation (home ++ [site.publicDir] ++ [site.tmpDir])) ≠ .ok true) :
    Changes (Filling site home routes) Nowhere d (d.copyTree site.publicRoot site.outRoot).1 := by
  have hsource : PlainNames (home ++ [site.publicDir]) := plain_public hground.plain hpublic
  have hroot : site.publicRoot = .ofLocation (home ++ [site.publicDir]) := by
    rw [Site.publicRoot, Path.PlainName.join_eq (hsource _ (by simp)), hsite.root]
    rfl
  have hin : ∃ first ∈ [site.outDir], home ++ [first] <+: home ++ [site.outDir] :=
    ⟨site.outDir, List.mem_singleton_self _, List.prefix_refl _⟩
  have hreach : ∀ l, Disk.Reach home (home ++ [site.outDir]) l → Beneath home [site.outDir] l :=
    fun l hl => Disk.beneath_of_between hin hl.1 hl.2.1 hl.2.2
  rw [hroot, hsite.placed.outRoot_eq]
  refine (Disk.changes_copyTree_except hsource (hground.plain.child hsite.plain_outDir) hsite.plain_tmpDir
    (List.prefix_append _ _) ((spares_public hsite hpublic).mono hreach) hfile
    ⟨hground.sound, hground.standing⟩).widen fun l hl => ?_
  exact ⟨hreach l hl.1, fun hbundled => (hl.2 hbundled).imp id .inl⟩

/-- While the output directory is filled, nothing gets among the bundled pages but pages, and perhaps one file. -/
theorem outputSteps_filling (hsite : Usual site home) (hground : Ground home d₀)
    (hpublic : site.publicDir = "public".toList)
    (hfile : d₀.isDirectory (.ofLocation (home ++ [site.publicDir] ++ [site.tmpDir])) ≠ .ok true)
    (hroutes : ∀ route ∈ routes, Path.FileName route) :
    OutputSteps site routes (Disk.Twin (Changes (Filling site home routes) Nowhere d₀)) where
  answers := by
    rintro d _ ⟨rfl, _⟩
    exact .refl d
  asset address bytes := by
    refine (Keeps.change fun d d' hwrite hd => hd.trans ?_).couples
    have hname := fileName_asset hsite.placed hground.plain address bytes
    refine (changes_writeAsset hsite.placed hground.plain hname hwrite).mono (fun _ hc => hc.elim) ?_
    rintro l rfl
    exact .inl (AssetsPart.filling hsite (assetsPart_assetAt _))
  bundled route hroute s := by
    refine (Keeps.change fun d d' hwrite hd => hd.trans ?_).couples
    rw [pageFile_bundledRoot hsite (hroutes route hroute)] at hwrite
    have hname := plain_of_writeBytes ((hroutes route hroute).append (by decide) (by decide)) hwrite
    refine (Disk.changes_writeBytes (PlainNames.bundledAt hsite hground.plain hname) rfl hwrite).widen fun l hl => ?_
    subst hl
    refine ⟨⟨site.outDir, List.mem_singleton_self _, ?_⟩, fun _ => .inr (.inr ⟨route, hroute, rfl⟩)⟩
    rw [bundledAt, List.append_assoc]
    exact List.prefix_append _ _
  make p hp := by
    have hmake : ∀ name, Path.PlainName name → p = .ofLocation (home ++ [site.outDir] ++ [name]) →
        Keeps (Changes (Filling site home routes) Nowhere d₀) (Job.changeBySteps (·.ensureDirectories p)) := by
      rintro name hplain rfl
      exact Keeps.changeBySteps fun d hd =>
        hd.trans (changes_ensureDirectories_output hsite (ground_of_filling hground hd) hplain)
    rcases List.mem_pair.1 hp with rfl | rfl
    · exact (hmake _ (by decide) (hsite.placed.assetsRoot_eq)).couples
    · exact (hmake _ hsite.plain_tmpDir hsite.bundledRoot_eq).couples
  merge := by
    rintro d _ ⟨rfl, hd⟩
    refine ⟨rfl, rfl, hd.trans (changes_copyTree_public hsite (ground_of_filling hground hd) hpublic ?_)⟩
    rw [hd.isDirectory_at ((plain_public hground.plain hpublic).child hsite.plain_tmpDir)
      ((spares_public hsite hpublic).mono fun l hl => hl.1) (spares_nowhere _)]
    exact hfile
  style := by
    refine (Keeps.change fun d d' hcopy hd => hd.trans ?_).couples
    have hout := hground.plain.child hsite.plain_outDir
    have hstyle : Path.FileName site.globalStyleFile := hsite.styleName.append (by decide) (by decide)
    have hleads : ((assetsRoot site).join site.globalStyleFile).LeadsBeneath (home ++ [site.outDir])
        ["assets".toList] := by
      rw [hstyle.join_eq, hsite.placed.assetsRoot_eq]
      exact (Path.leadsBeneath_child (List.mem_singleton_self _) (by decide)).child hstyle
    exact (Disk.changes_copyBytes_beneath hout hleads hcopy).widen fun _ hl => AssetsPart.filling hsite hl
  publish := by
    rintro d _ names ⟨rfl, hd⟩ hlist name hname hpage s
    have hplain : Path.PlainName name := Disk.plain_of_list (ground_of_filling hground hd).sound hlist name hname
    have hloc : PlainNames (outputAt site home name) := (hground.plain.child hsite.plain_outDir).child hplain
    rw [outRoot_child hsite]
    exact (Keeps.change fun _ _ hwrite hd => hd.trans
      (Disk.changes_writeBytes hloc (outputAt_filling hsite hpage) hwrite)).couples

/-- If nothing stood among the bundled pages, what is ready there is a page of one of the routes. -/
theorem route_of_readyNames (hsite : Usual site home) (hhome : PlainNames home)
    (hclear : Cleared (bundledDir site home) d₀) (h : Changes (Filling site home routes) Nowhere d₀ d) {name : Text}
    (hname : name ∈ readyNames site d) : ∃ route ∈ routes, name = fileOf route := by
  obtain ⟨dir, hdir, ⟨e, he⟩, hpage⟩ := exists_of_mem_readyNames hname
  rw [hsite.bundledRoot_eq] at hdir
  have hdir' : dir = bundledDir site home := Disk.location_ofLocation (plain_bundledDir hsite hhome) hdir
  subst hdir'
  have hbelow : bundledDir site home <+: bundledDir site home ++ [name] := List.prefix_append _ _
  by_cases hfilling : Filling site home routes (bundledDir site home ++ [name])
  · rcases hfilling.2 hbelow with hself | htmp | ⟨route, hroute, hbundled⟩
    · have hlen := congrArg List.length hself
      simp at hlen
    · rw [List.singleton_inj.1 (List.append_cancel_left htmp), not_isPageName_tmpDir hsite] at hpage
      cases hpage
    · exact ⟨route, hroute, List.singleton_inj.1 (List.append_cancel_left hbundled)⟩
  · rw [h.entry _ hfilling id, hclear _ hbelow] at he
    cases he

/-- If nothing stood among the bundled pages, just the pages of the routes are ready, in the order of their names. -/
theorem readyNames_eq (hsite : Usual site home) (hground : Ground home d₀) (hnodup : routes.Nodup)
    (hclear : Cleared (bundledDir site home) d₀) (h : Changes (Filling site home routes) Nowhere d₀ d)
    (hready : ∀ route ∈ routes, fileOf route ∈ readyNames site d) :
    readyNames site d = Text.sorted (routes.map fileOf) := by
  have hsound : FileTree.Sound d.tree := h.sound hground.sound
  have hinj : Function.Injective fileOf := fun _ _ hsame => List.append_cancel_right hsame
  have hperm := List.mergeSort_perm (routes.map fileOf) fun a b => !Text.before b a
  refine Text.eq_of_perm_of_pairwise (List.Perm.trans ?_ hperm.symm) ?_ (Text.pairwise_sorted _)
  · refine (List.perm_ext_iff_of_nodup (nodup_readyNames hsound) (hnodup.map hinj)).2 fun name => ⟨fun hname => ?_, ?_⟩
    · obtain ⟨route, hroute, rfl⟩ := route_of_readyNames hsite hground.plain hclear h hname
      exact List.mem_map_of_mem hroute
    · rintro hname
      obtain ⟨route, hroute, rfl⟩ := List.mem_map.1 hname
      exact hready route hroute
  · rcases readyNames_cases site d with hnone | ⟨dir, -, hready⟩
    · rw [hnone]
      exact List.Pairwise.nil
    · rw [hready]
      exact (Text.pairwise_sorted _).filter _

end Sitewright.Build
