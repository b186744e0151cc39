import Sitewright.Proofs.Build.Repeat
import Sitewright.Proofs.Course
import Sitewright.Proofs.File.Outside
/-!
# What bundling makes of a page

A build by copying replaces references one after the other, copies each file when it is first referred to, and keeps
the names that it has given. All this comes to one substitution, in which each reference is replaced by what it
stands for on the disk that bundling begins with: what bundling writes lies in the output directory.

* `bundledText`: the text of a page after bundling.
* `RefersOutside`: a text that refers to nothing in some directories.
* `Replaced`: what can happen to a reference when it is replaced.
* `Faithful`: what holds of the disk and of the names given while pages are bundled.

Main statements: `course_of_substituteM`, `Faithful.substitute` and `not_mem_bundledText`.
-/
set_option autoImplicit false

namespace Sitewright.Build

open Disk (Changes Ground AlikeOutside)
open Job (outcome Keeps Yields CouplesFrom)

/-! ## References -/

/-- What a rooted reference becomes: the reference to the bundled file if it stands for a file with the suffix of one
that is bundled, itself otherwise. -/
def replacement (site : Site) (d : Disk) (found : RootedReference) (source : Text) : Text :=
  let file := sourceOf site found.address
  if List.elem file.suffix bundledSuffixes then
    match d.readBytes file with
    | .ok bytes => bundledReference found.attr (bundledName file bytes)
    | .error _ => source
  else source

def bundledText (site : Site) (d : Disk) (s : Text) : Text := Scan.substitute rootedReference (replacement site d) s

/-- A reference with the suffix of a file that is bundled does not go into a class of locations. -/
def StaysOutside (site : Site) (T : Location → Prop) (found : RootedReference) : Prop :=
  List.elem (sourceOf site found.address).suffix bundledSuffixes = true → ¬ (sourceOf site found.address).Enters T

/-- No reference of a text goes into a class of locations. -/
def RefersOutside (site : Site) (T : Location → Prop) (s : Text) : Prop :=
  ∀ found ∈ Scan.marks rootedReference s, StaysOutside site T found

variable {site : Site} {home : Location} {d d' look : Disk} {T S : Location → Prop} {found : RootedReference}
  {s source : Text}

theorem mem_marks_of_mark (hmark : .mark found source ∈ Scan.scan rootedReference s) :
    found ∈ Scan.marks rootedReference s := by
  rw [Scan.marks_eq]
  exact List.mem_map_of_mem (Scan.mem_markPieces.2 hmark)

theorem RefersOutside.mono {T' : Location → Prop} (h : RefersOutside site T s) (hT : ∀ l, T' l → T l) :
    RefersOutside site T' s := by
  rintro found hfound hsuffix ⟨loc, hloc, hc⟩
  exact h found hfound hsuffix ⟨loc, hloc, hT loc hc⟩

theorem absolute_sourceOf (hroot : site.root.anchor ≠ .here) (address : Text) :
    (sourceOf site address).anchor ≠ .here := Path.anchor_join hroot _

theorem replacement_congr (h : AlikeOutside T S d d') (hroot : site.root.anchor ≠ .here) (hT : ¬ T [])
    (hout : StaysOutside site T found)
    (hS : List.elem (sourceOf site found.address).suffix bundledSuffixes = true →
      ¬ S ((sourceOf site found.address).resolve d.here)) :
    replacement site d' found source = replacement site d found source := by
  unfold replacement
  simp only
  split
  · rename_i hsuffix
    rw [h.readBytes_eq (absolute_sourceOf hroot _) hT (hout hsuffix) (hS hsuffix)]
  · rfl

theorem bundledText_congr (h : AlikeOutside T S d d') (hroot : site.root.anchor ≠ .here) (hT : ¬ T [])
    (hout : RefersOutside site T s)
    (hS : ∀ found ∈ Scan.marks rootedReference s,
      List.elem (sourceOf site found.address).suffix bundledSuffixes = true →
        ¬ S ((sourceOf site found.address).resolve d.here)) : bundledText site d' s = bundledText site d s := by
  refine Scan.substitute_congr fun found _ hmark => ?_
  have hfound := mem_marks_of_mark hmark
  exact replacement_congr h hroot hT (hout found hfound) (hS found hfound)

/-! ## Line ends -/

theorem of_rootedReference {rest : Text} {n : Nat} (h : rootedReference rest = some (found, n)) :
    found.attr ∈ addressAttributes ∧ ∀ c ∈ found.address, c = '/' ∨ c ∈ rest := by
  unfold rootedReference at h
  obtain ⟨attr, hattr, h⟩ := List.exists_of_findSome?_eq_some h
  obtain ⟨behind, hbehind, h⟩ := Option.bind_eq_some_iff.1 h
  have hrest := Text.eq_append_of_after? hbehind
  cases behind with
  | nil => cases h
  | cons c behind =>
    simp only at h
    split at h
    · cases h
    · split at h
      · cases h
        refine ⟨hattr, fun b hb => ?_⟩
        rcases List.mem_cons.1 hb with hb | hb
        · exact .inl hb
        · refine .inr ?_
          rw [hrest]
          exact List.mem_append_right _ ((List.takeWhile_sublist _).subset hb)
      · cases h

theorem sourceOf_eq (site : Site) (address : Text) : sourceOf site address =
    ⟨site.root.anchor, site.root.parts ++ Path.partsOf (address.dropWhile (· = '/'))⟩ := by
  have hanchor : Path.anchorOf (address.dropWhile (· = '/')) = .here := by
    have hhead := List.head?_dropWhile_not (· = '/') address
    rcases hrest : address.dropWhile (· = '/') with _ | ⟨c, rest⟩
    · rfl
    · rw [hrest] at hhead
      have hc : c ≠ '/' := by simpa using hhead
      unfold Path.anchorOf
      split <;> first | rfl | exact absurd (List.cons.inj ‹_›).1 hc
  unfold sourceOf Path.join Path.ofText Path.append
  rw [hanchor]

theorem readBytes_of_isDirectory {p : Path} {bytes : Bytes} (h : d.isDirectory p = .ok true) :
    d.readBytes p ≠ .ok bytes := by
  intro hread
  obtain ⟨loc, hplace⟩ := Disk.isDirectory_eq_true.1 h
  obtain ⟨loc', stamp, hplace'⟩ := Disk.place_of_readBytes hread
  rw [hplace] at hplace'
  cases hplace'

theorem mem_name_sourceOf (hdir : d.isDirectory site.root = .ok true) {address : Text} {bytes : Bytes}
    (h : d.readBytes (sourceOf site address) = .ok bytes) : ∀ c ∈ (sourceOf site address).name, c ∈ address := by
  rcases List.eq_nil_or_concat (Path.partsOf (address.dropWhile (· = '/'))) with hnil | ⟨front, last, hlast⟩
  · rw [sourceOf_eq, hnil, List.append_nil] at h
    exact absurd h (readBytes_of_isDirectory hdir)
  · intro c hc
    have hmem : last ∈ Path.partsOf (address.dropWhile (· = '/')) := by
      rw [hlast]
      simp
    rw [sourceOf_eq, Path.name, hlast] at hc
    have hlast : c ∈ last := by simpa using hc
    exact (List.dropWhile_sublist _).subset (Path.mem_partsOf hmem c hlast).1

theorem not_mem_bundledName {p : Path} (h : '\r' ∉ p.name) (bytes : Bytes) : '\r' ∉ bundledName p bytes := by
  obtain ⟨hstem, hsuffix⟩ := not_mem_cutSuffix (by decide : '\r' ≠ '.') h
  simp only [bundledName, Path.stem, Path.suffix, List.mem_append, List.mem_cons, not_or]
  exact ⟨⟨hstem, by decide, Sha256.not_mem_fingerprint (by decide) bytes _⟩, hsuffix⟩

theorem not_mem_replacement (hdir : d.isDirectory site.root = .ok true) (hs : '\r' ∉ s)
    (hmark : .mark found source ∈ Scan.scan rootedReference s) : '\r' ∉ replacement site d found source := by
  have hsource : '\r' ∉ source := by
    intro hc
    refine hs ?_
    rw [← Scan.source_scan rootedReference s]
    exact List.mem_flatMap.2 ⟨_, hmark, hc⟩
  unfold replacement
  simp only
  split
  · cases hread : d.readBytes (sourceOf site found.address) with
    | error e => exact hsource
    | ok bytes =>
      obtain ⟨before, rest, n, hrest, hfound, -⟩ := Scan.exists_of_mark_mem_scan hmark
      obtain ⟨hattr, haddress⟩ := of_rootedReference hfound
      have hname : '\r' ∉ (sourceOf site found.address).name := by
        intro hc
        rcases haddress _ (mem_name_sourceOf hdir hread _ hc) with hc | hc
        · exact absurd hc (by decide)
        · refine hs ?_
          rw [hrest]
          exact List.mem_append_right _ hc
      have hattr' : '\r' ∉ found.attr := by
        rcases List.mem_pair.1 hattr with h | h <;> rw [h] <;> decide
      simp only [bundledReference, List.mem_append, List.mem_singleton, not_or]
      exact ⟨⟨⟨hattr', by decide⟩, not_mem_bundledName hname bytes⟩, by decide⟩
  · exact hsource

/-- Bundling brings no carriage return into a text. -/
theorem not_mem_bundledText (hdir : d.isDirectory site.root = .ok true) (hs : '\r' ∉ s) :
    '\r' ∉ bundledText site d s :=
  Scan.not_mem_substitute hs fun _ _ hmark => not_mem_replacement hdir hs hmark

/-! ## Copying assets -/

theorem Beneath.above {name : Text} {names : List Text} {loc : Location} (h : Beneath (home ++ [name]) names loc) :
    Beneath home [name] loc := by
  obtain ⟨other, _, hbelow⟩ := h
  exact ⟨name, List.mem_singleton_self name, (List.prefix_append _ _).trans hbelow⟩

/-- The locations at or below the directory of assets. -/
def AssetsPart (site : Site) (home : Location) : Location → Prop := Beneath (home ++ [site.outDir]) ["assets".toList]

def assetAt (site : Site) (home : Location) (name : Text) : Location :=
  home ++ [site.outDir] ++ ["assets".toList] ++ [name]

/-- The locations of bundled files, going by their names. -/
def BundledAsset (site : Site) (home : Location) : Location → Prop :=
  fun l => ∃ name, (∃ suffix ∈ bundledSuffixes, suffix <:+ name) ∧ l = assetAt site home name

theorem assetsPart_assetAt (name : Text) : AssetsPart site home (assetAt site home name) :=
  ⟨"assets".toList, List.mem_singleton_self _, List.prefix_append _ _⟩

theorem BundledAsset.assetsPart {l : Location} (h : BundledAsset site home l) : AssetsPart site home l := by
  obtain ⟨name, -, rfl⟩ := h
  exact assetsPart_assetAt name

section

variable (hplaced : Placed site home) (hhome : PlainNames home)
include hplaced hhome

theorem resolve_asset (here : Location) {name : Text} (hname : Path.FileName name) :
    ((assetsRoot site).join name).resolve here = assetAt site home name := by
  have hassets : Path.FileName "assets".toList := by decide
  rw [Path.resolve_join hname, assetsRoot, Path.resolve_join hassets, Site.outRoot,
    Path.resolve_join hplaced.outName, hplaced.root, Path.resolve_plain hhome, assetAt]

theorem changes_writeAsset {name : Text} (hname : Path.FileName name) {bytes : Bytes}
    (h : d.writeBytes ((assetsRoot site).join name) bytes = .ok d') :
    Changes Nowhere (· = assetAt site home name) d d' := by
  refine Disk.changes_writeBytes_resolve ?_ ?_ (resolve_asset hplaced hhome d.here hname) h
  · exact Path.anchor_join (Path.anchor_join (Path.anchor_join hplaced.absolute_root _) _) _
  · exact (((hplaced.spelt_root hhome).join _).join _).join _

theorem fileName_asset (address : Text) (bytes : Bytes) :
    Path.FileName (bundledName (sourceOf site address) bytes) :=
  fileName_bundledName (hplaced.spelt_sourceOf hhome address) bytes

end

/-! ## Bundling step by step -/

theorem nameOf?_cons (file source : Path) (name : Text) (names : List (Path × Text)) (assets assets' : List Path) :
    (⟨(source, name) :: names, assets⟩ : Copied).nameOf? file =
      if source = file then some name else (⟨names, assets'⟩ : Copied).nameOf? file := by
  unfold Copied.nameOf?
  by_cases hfile : source = file <;> simp [hfile]

theorem isFile_of_readBytes {p : Path} {bytes : Bytes} (h : d.readBytes p = .ok bytes) : d.isFile p = .ok true := by
  obtain ⟨loc, stamp, hplace⟩ := Disk.place_of_readBytes h
  exact Disk.isFile_of_place hplace

variable {st t : Workspace × Copied}

/-- What is done for a reference: it is kept, or it is replaced by the name that its file has been copied under before
or is copied under now. -/
inductive Replaced (site : Site) (found : RootedReference) (source : Text) (st : Workspace × Copied) :
    Text → Workspace × Copied → Prop
  | kept (hfile : List.elem (sourceOf site found.address).suffix bundledSuffixes = true →
      st.1.disk.isFile (sourceOf site found.address) = .ok false) : Replaced site found source st source st
  | known {name : Text} (hsuffix : List.elem (sourceOf site found.address).suffix bundledSuffixes = true)
      (hname : st.2.nameOf? (sourceOf site found.address) = some name) :
      Replaced site found source st (bundledReference found.attr name) st
  | copied {bytes : Bytes} {t : Workspace × Copied}
      (hsuffix : List.elem (sourceOf site found.address).suffix bundledSuffixes = true)
      (hnew : st.2.nameOf? (sourceOf site found.address) = none)
      (hread : st.1.disk.readBytes (sourceOf site found.address) = .ok bytes)
      (hwrite : st.1.disk.writeBytes ((assetsRoot site).join (bundledName (sourceOf site found.address) bytes)) bytes =
        .ok t.1.disk)
      (hnames : ∀ file, t.2.nameOf? file =
        if sourceOf site found.address = file then some (bundledName (sourceOf site found.address) bytes)
        else st.2.nameOf? file) :
      Replaced site found source st (bundledReference found.attr (bundledName (sourceOf site found.address) bytes)) t

theorem Replaced.changes (hplaced : Placed site home) (hhome : PlainNames home) {text : Text}
    (h : Replaced site found source st text t) :
    Changes Nowhere (BundledAsset site home) st.1.disk t.1.disk := by
  cases h with
  | kept | known => exact .refl _ _ _
  | copied hsuffix _ _ hwrite =>
    refine (changes_writeAsset hplaced hhome (fileName_asset hplaced hhome _ _) hwrite).mono (fun _ hc => hc) ?_
    rintro l rfl
    exact .inr ⟨_, ⟨_, List.elem_iff.1 hsuffix, List.suffix_append _ _⟩, rfl⟩

theorem replaced_of_bundleSource {name : Text}
    (hsuffix : List.elem (sourceOf site found.address).suffix bundledSuffixes = true)
    (h : Yields (bundleSource (assetsRoot site) (sourceOf site found.address)) st name t) :
    Replaced site found source st (bundledReference found.attr name) t := by
  unfold bundleSource at h
  obtain ⟨copied, u, hget, h⟩ := h.exists_of_bind
  obtain ⟨rfl, rfl⟩ := hget.of_get
  cases hnamed : u.2.nameOf? (sourceOf site found.address) with
  | some given =>
    simp only [hnamed] at h
    obtain ⟨rfl, rfl⟩ := h.of_pure
    exact .known hsuffix hnamed
  | none =>
    simp only [hnamed] at h
    obtain ⟨bytes, u₁, hask, h⟩ := h.exists_of_bind
    obtain ⟨hask, hu₁⟩ := hask.of_lift
    obtain ⟨hread, hdisk₁⟩ := Job.of_ask_ok hask
    obtain ⟨_, u₂, hwrite, h⟩ := h.exists_of_bind
    obtain ⟨hwrite, hu₂⟩ := hwrite.of_lift
    have hwritten := Job.of_change_ok hwrite
    obtain ⟨_, u₃, hmodify, h⟩ := h.exists_of_bind
    have hu₃ := hmodify.of_modify
    obtain ⟨rfl, rfl⟩ := h.of_pure
    rw [hdisk₁] at hwritten
    refine .copied hsuffix hnamed hread ?_ fun file => ?_
    · rw [hu₃]
      exact hwritten
    · rw [hu₃, hu₂, hu₁]
      exact nameOf?_cons _ _ _ _ _ _

theorem replaced_of_replaceReference {text : Text}
    (h : Yields (replaceReference site (assetsRoot site) found source) st text t) :
    Replaced site found source st text t := by
  unfold replaceReference at h
  simp only at h
  by_cases hsuffix : List.elem (sourceOf site found.address).suffix bundledSuffixes = true
  · rw [if_pos hsuffix] at h
    obtain ⟨there, u, hask, h⟩ := h.exists_of_bind
    obtain ⟨hask, hu⟩ := hask.of_lift
    obtain ⟨hfile, hw⟩ := Job.of_ask_ok hask
    have hsame : u = st := Prod.ext hw hu
    subst hsame
    cases there with
    | false =>
      obtain ⟨rfl, rfl⟩ := h.of_pure
      exact .kept fun _ => hfile
    | true =>
      obtain ⟨name, u₁, hsource, h⟩ := h.exists_of_bind
      obtain ⟨rfl, rfl⟩ := h.of_pure
      exact replaced_of_bundleSource hsuffix hsource
  · rw [if_neg hsuffix] at h
    obtain ⟨rfl, rfl⟩ := h.of_pure
    exact .kept fun hc => absurd hc hsuffix

/-- The references of a text are replaced one after the other. -/
theorem course_of_substituteM {text : Text}
    (h : Yields (Scan.substituteM rootedReference (replaceReference site (assetsRoot site)) s) st text t) :
    ∃ texts, text = Scan.fill [] (Scan.scan rootedReference s) texts ∧
      Course (fun mark text st t => Replaced site mark.1 mark.2 st text t)
        (Scan.markPieces (Scan.scan rootedReference s)) texts st t := by
  unfold Scan.substituteM at h
  obtain ⟨texts, u, htexts, h⟩ := h.exists_of_bind
  obtain ⟨rfl, rfl⟩ := h.of_pure
  exact ⟨texts, rfl, htexts.course.mono fun _ _ _ _ => replaced_of_replaceReference⟩

/-- While pages are bundled, work is done in the output directory only, and a file has been given the name that it
has on the disk that bundling began with. -/
structure Faithful (site : Site) (home : Location) (look : Disk) (st : Workspace × Copied) : Prop where
  disk : Changes (Beneath home [site.outDir]) Nowhere look st.1.disk
  names : ∀ file name, st.2.nameOf? file = some name → file.anchor ≠ .here →
    ¬ file.Enters (Beneath home [site.outDir]) →
      ∃ bytes, look.readBytes file = .ok bytes ∧ name = bundledName file bytes

namespace Faithful

theorem alike (h : Faithful site home look st) : AlikeOutside (Beneath home [site.outDir]) Nowhere look st.1.disk :=
  h.disk.alikeOutside fun _ hc => hc.elim

/-- A reference is replaced by what it stands for on the disk that bundling began with. -/
theorem replaced (h : Faithful site home look st) (hsite : Usual site home) (hhome : PlainNames home)
    {text : Text} (hrun : Replaced site found source st text t) :
    Faithful site home look t ∧ (StaysOutside site (Beneath home [site.outDir]) found →
      text = replacement site look found source) := by
  have habsolute := absolute_sourceOf hsite.placed.absolute_root found.address
  have hdisk : Changes (Beneath home [site.outDir]) Nowhere look t.1.disk := h.disk.trans <|
    (hrun.changes hsite.placed hhome).mono (fun _ hc => hc.elim) fun _ hl => .inl (Beneath.above hl.assetsPart)
  unfold replacement StaysOutside
  simp only
  cases hrun with
  | kept hfile =>
    refine ⟨h, fun hout => ?_⟩
    split
    · rename_i hsuffix
      cases hread : look.readBytes (sourceOf site found.address) with
      | error e => rfl
      | ok bytes =>
        have hthere := hfile hsuffix
        rw [h.alike.isFile_eq habsolute not_beneath_nil (hout hsuffix), isFile_of_readBytes hread] at hthere
        cases hthere
    · rfl
  | known hsuffix hname =>
    refine ⟨h, fun hout => ?_⟩
    obtain ⟨bytes, hread, rfl⟩ := h.names _ _ hname habsolute (hout hsuffix)
    rw [if_pos hsuffix, hread]
  | @copied bytes t hsuffix hnew hread hwrite hnames =>
    have hlook : ¬ (sourceOf site found.address).Enters (Beneath home [site.outDir]) →
        look.readBytes (sourceOf site found.address) = .ok bytes := fun hout =>
      (h.alike.readBytes_eq habsolute not_beneath_nil hout id).symm.trans hread
    refine ⟨⟨hdisk, fun file given hgiven hfile houtside => ?_⟩, fun houtside => ?_⟩
    · rw [hnames] at hgiven
      split at hgiven
      · rename_i hsame
        cases hgiven
        exact hsame ▸ ⟨bytes, hlook (hsame.symm ▸ houtside), rfl⟩
      · exact h.names file given hgiven hfile houtside
    · rw [if_pos hsuffix, hlook (houtside hsuffix)]

/-- The references of a text are replaced one after the other, which comes to one substitution. -/
theorem substitute (h : Faithful site home look st) (hsite : Usual site home) (hhome : PlainNames home) {text : Text}
    (hrun : Yields (Scan.substituteM rootedReference (Build.replaceReference site (assetsRoot site)) s) st text t) :
    Faithful site home look t ∧
      (RefersOutside site (Beneath home [site.outDir]) s → text = bundledText site look s) := by
  obtain ⟨texts, rfl, hcourse⟩ := course_of_substituteM hrun
  refine ⟨hcourse.keeps (fun mark _ y st t hst hrun => (hst.replaced hsite hhome hrun).1) h, fun hout => ?_⟩
  have hfill : texts = (Scan.markPieces (Scan.scan rootedReference s)).map
      fun mark => replacement site look mark.1 mark.2 := by
    refine hcourse.map_eq (fun mark hmark y st t hst hrun => ?_) h
    obtain ⟨ht, hy⟩ := hst.replaced hsite hhome hrun
    exact ⟨ht, hy (hout mark.1 (mem_marks_of_mark (Scan.mem_markPieces.1 hmark)))⟩
  rw [hfill]
  exact Scan.fill_map_marks _ _ _

end Faithful

end Sitewright.Build
