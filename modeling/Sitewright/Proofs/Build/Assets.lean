import Sitewright.Proofs.Build.Publication
import Sitewright.Proofs.File.SameFiles
/-!
# Bundled files

A file that pages refer to is copied when it is first referred to, under a name made of its own name and the
fingerprint of what it holds. Wherever pages refer to it, and however its path is spelt, it gets the same name; and
what was copied under a name stays there, unless two files with different contents get the same name.

* `Referred`: the files that pages refer to.
* `Unambiguous`: fingerprints tell the files apart that pages refer to.
* `Stocked`: what holds of the disk and of the names given while pages are bundled.

Main statements: `bundledName_inj` and `bundledCourse`.
-/
set_option autoImplicit false

namespace Sitewright.Build

open Disk (Changes SameFiles)
open Job (outcome Yields)
open Reading (textIn)

variable {site : Site} {home : Location} {look d d' : Disk} {pages : Keyed Path} {st t u : Workspace × Copied}
  {found : RootedReference} {item : Text × Path} {s source text : Text} {file p q : Path} {bytes bytes' : Bytes}

/-! ## Names of bundled files -/

theorem eq_of_append_cons {c : Char} {front front' tail tail' : Text} (htail : c ∉ tail) (htail' : c ∉ tail')
    (h : front ++ c :: tail = front' ++ c :: tail') : front = front' ∧ tail = tail' := by
  have hnil : ∀ {more rest rest' : Text}, c ∉ rest → c :: rest = more ++ c :: rest' → more = [] := by
    intro more rest rest' hrest heq
    cases more with
    | nil => rfl
    | cons b more =>
      rw [(List.cons.inj heq).2] at hrest
      exact absurd (List.mem_append_right more List.mem_cons_self) hrest
  rcases List.append_eq_append_iff.1 h with ⟨more, rfl, heq⟩ | ⟨more, rfl, heq⟩
  · obtain rfl := hnil htail heq
    exact ⟨(List.append_nil front).symm, (List.cons.inj heq).2⟩
  · obtain rfl := hnil htail' heq
    exact ⟨List.append_nil front', (List.cons.inj heq).2.symm⟩

theorem exists_of_bundledSuffix {suffix : Text} (h : suffix ∈ bundledSuffixes) :
    ∃ rest, suffix = '.' :: rest ∧ '.' ∉ rest := by
  have hall : ∀ suffix ∈ bundledSuffixes, suffix = '.' :: suffix.tail ∧ '.' ∉ suffix.tail := by decide
  exact ⟨suffix.tail, hall suffix h⟩

/-- The name of a bundled file tells its stem, its suffix and its fingerprint. -/
theorem bundledName_inj (hp : p.suffix ∈ bundledSuffixes) (hq : q.suffix ∈ bundledSuffixes)
    (h : bundledName p bytes = bundledName q bytes') : p.stem = q.stem ∧ p.suffix = q.suffix ∧
      Sha256.fingerprint bytes Sha256.nameDigits = Sha256.fingerprint bytes' Sha256.nameDigits := by
  obtain ⟨rest, hrest, hdot⟩ := exists_of_bundledSuffix hp
  obtain ⟨rest', hrest', hdot'⟩ := exists_of_bundledSuffix hq
  unfold bundledName at h
  rw [hrest, hrest'] at h
  obtain ⟨hfront, htail⟩ := eq_of_append_cons hdot hdot' h
  obtain ⟨hstem, hprint⟩ := eq_of_append_cons (Sha256.not_mem_fingerprint (by decide) bytes _)
    (Sha256.not_mem_fingerprint (by decide) bytes' _) hfront
  exact ⟨hstem, by rw [hrest, hrest', htail], hprint⟩

theorem name_of_bundledSuffix (h : p.suffix ∈ bundledSuffixes) (here : Location) :
    (Path.ofLocation (p.resolve here)).name = p.name := by
  have hne : p.name ≠ [] := by
    intro hc
    rw [Path.suffix, hc] at h
    exact absurd h (by decide)
  have hdots : p.name ≠ ['.', '.'] := by
    intro hc
    rw [Path.suffix, hc] at h
    exact absurd h (by decide)
  obtain ⟨dir, hdir⟩ := Path.exists_resolve_eq hne hdots here
  rw [hdir]
  simp [Path.name, Path.ofLocation]

theorem bundledName_resolve (h : p.suffix ∈ bundledSuffixes) (here : Location) (bytes : Bytes) :
    bundledName (.ofLocation (p.resolve here)) bytes = bundledName p bytes := by
  unfold bundledName Path.stem Path.suffix
  rw [name_of_bundledSuffix h here]

/-! ## Where pages go -/

def targetOf (site : Site) (route : Text) : Location := (pageFile site.bundledRoot route).resolve []

theorem exists_splitFrom_append {sep : Char} {tail : Text} (htail : sep ∉ tail) (done : List Text) (piece s : Text) :
    ∃ front last, Text.splitFrom sep done piece (s ++ tail) = front ++ [last ++ tail] := by
  induction s generalizing done piece with
  | nil =>
    rw [List.nil_append, Text.splitFrom_of_not_mem htail, List.reverse_cons]
    exact ⟨_, _, rfl⟩
  | cons c s ih =>
    rw [List.cons_append, Text.splitFrom]
    split
    · exact ih _ _
    · exact ih _ _

/-- A page goes to a file with the name of a page. -/
theorem exists_targetOf (site : Site) (route : Text) :
    ∃ dir stem, targetOf site route = dir ++ [stem ++ ".html".toList] := by
  obtain ⟨front, last, hsplit⟩ := exists_splitFrom_append (by decide : '/' ∉ ".html".toList) [] [] route
  have hlength : 5 ≤ (last ++ ".html".toList).length := by
    rw [List.length_append]
    exact Nat.le_add_left 5 last.length
  have hne : ∀ short : Text, short.length < 5 → last ++ ".html".toList ≠ short := by
    rintro short hshort rfl
    omega
  have hpart : Path.isPart (last ++ ".html".toList) = true := by
    rw [Path.isPart, Bool.and_eq_true, Bool.not_eq_true', List.isEmpty_eq_false_iff, bne_iff_ne]
    exact ⟨hne [] (by decide), hne ['.'] (by decide)⟩
  have hparts : ∃ above, (pageFile site.bundledRoot route).parts = above ++ [last ++ ".html".toList] := by
    have hof : Path.partsOf (route ++ ".html".toList) = front.filter Path.isPart ++ [last ++ ".html".toList] := by
      rw [Path.partsOf, Text.splitOn, hsplit, List.filter_append, List.filter_singleton, hpart]
      rfl
    unfold pageFile Path.join Path.append Path.ofText
    split
    · exact ⟨_, by rw [hof, ← List.append_assoc]⟩
    · exact ⟨_, hof⟩
  obtain ⟨above, habove⟩ := hparts
  have hname : (pageFile site.bundledRoot route).name = last ++ ".html".toList := by
    simp [Path.name, habove]
  obtain ⟨dir, hdir⟩ := Path.exists_resolve_eq (hname ▸ hne [] (by decide)) (hname ▸ hne ['.', '.'] (by decide)) []
  exact ⟨dir, last, by rw [targetOf, hdir, hname]⟩

theorem assetAt_ne_targetOf {name : Text} (h : ∃ suffix ∈ bundledSuffixes, suffix <:+ name) (route : Text) :
    assetAt site home name ≠ targetOf site route := by
  obtain ⟨dir, stem, htarget⟩ := exists_targetOf site route
  obtain ⟨suffix, hsuffix, front, rfl⟩ := h
  have hlast : ∀ suffix ∈ bundledSuffixes, suffix.getLast? = some 's' := by decide
  intro hc
  rw [htarget, assetAt] at hc
  have hsame := congrArg List.getLast? (List.singleton_inj.1 (List.append_inj' hc rfl).2)
  have hhtml : ".html".toList.getLast? = some 'l' := by decide
  rw [List.getLast?_append, hlast suffix hsuffix, List.getLast?_append, hhtml] at hsame
  exact absurd (Option.some.inj hsame) (by decide)

section

variable (hplaced : Placed site home)
include hplaced

theorem absolute_pageFile (route : Text) : (pageFile site.bundledRoot route).anchor ≠ .here :=
  Path.anchor_join (Path.anchor_join (Path.anchor_join hplaced.absolute_root _) _) _

theorem resolve_pageFile (route : Text) (here : Location) :
    (pageFile site.bundledRoot route).resolve here = targetOf site route := by
  rw [targetOf, Path.resolve_absolute (absolute_pageFile hplaced route),
    Path.resolve_absolute (absolute_pageFile hplaced route)]

theorem changes_writePage (hhome : PlainNames home) {route : Text}
    (h : d.writeBytes (pageFile site.bundledRoot route) bytes = .ok d') :
    Changes Nowhere (· = targetOf site route) d d' := by
  refine Disk.changes_writeBytes_resolve (absolute_pageFile hplaced route) ?_ (resolve_pageFile hplaced route _) h
  exact (((hplaced.spelt_root hhome).join _).join _).join _

end

/-! ## References to files -/

/-- A text refers to a file that is bundled, if it is there. -/
def RefersTo (site : Site) (s : Text) (file : Path) : Prop :=
  file.suffix ∈ bundledSuffixes ∧ ∃ found ∈ Scan.marks rootedReference s, sourceOf site found.address = file

/-- Some of the pages refers to a file. -/
def Referred (site : Site) (d : Disk) (pages : Keyed Path) (file : Path) : Prop :=
  ∃ item ∈ pages, ∃ s, textIn d item.2 = .ok s ∧ RefersTo site s file

/-- Files that pages refer to hold the same if they have the same stem, suffix and fingerprint. -/
def Unambiguous (site : Site) (d : Disk) (pages : Keyed Path) : Prop :=
  ∀ file file' bytes bytes', Referred site d pages file → Referred site d pages file' →
    d.readBytes file = .ok bytes → d.readBytes file' = .ok bytes' → file.stem = file'.stem →
      file.suffix = file'.suffix →
        Sha256.fingerprint bytes Sha256.nameDigits = Sha256.fingerprint bytes' Sha256.nameDigits → bytes = bytes'

theorem Referred.suffix (h : Referred site d pages file) : file.suffix ∈ bundledSuffixes := by
  obtain ⟨_, _, _, _, hsuffix, _⟩ := h
  exact hsuffix

theorem Referred.fileName (h : Referred site d pages file) (hplaced : Placed site home) (hhome : PlainNames home)
    (bytes : Bytes) : Path.FileName (bundledName file bytes) := by
  obtain ⟨_, _, _, _, _, found, _, rfl⟩ := h
  exact fileName_asset hplaced hhome _ bytes

theorem Unambiguous.eq_of_bundledName (h : Unambiguous site d pages) {file' : Path} (hfile : Referred site d pages file)
    (hfile' : Referred site d pages file') (hread : d.readBytes file = .ok bytes)
    (hread' : d.readBytes file' = .ok bytes') (hname : bundledName file bytes = bundledName file' bytes') :
    bytes = bytes' := by
  obtain ⟨hstem, hsuffix, hprint⟩ := bundledName_inj hfile.suffix hfile'.suffix hname
  exact h file file' bytes bytes' hfile hfile' hread hread' hstem hsuffix hprint

/-! ## Going on -/

/-- While pages are bundled, nothing but assets and pages is written, and a name that has been given stays. -/
structure Advances (site : Site) (home : Location) (st t : Workspace × Copied) : Prop where
  disk : Changes Nowhere (BundledAsset site home) st.1.disk t.1.disk
  names : ∀ file name, st.2.nameOf? file = some name → t.2.nameOf? file = some name

theorem Advances.refl (st : Workspace × Copied) : Advances site home st st := ⟨.refl _ _ _, fun _ _ h => h⟩

theorem Advances.trans (h : Advances site home st t) (h' : Advances site home t u) : Advances site home st u :=
  ⟨h.disk.trans h'.disk, fun file name hname => h'.names file name (h.names file name hname)⟩

/-- If a file is there, it has been given its name. -/
def Registered (look : Disk) (file : Path) (st : Workspace × Copied) : Prop :=
  ∀ bytes, look.readBytes file = .ok bytes → st.2.nameOf? file = some (bundledName file bytes)

theorem Registered.advance (h : Registered look file st) (hst : Advances site home st t) : Registered look file t :=
  fun bytes hread => hst.names _ _ (h bytes hread)

/-- If a reference stands for a file that is bundled, that file has been given its name. -/
def Covered (site : Site) (look : Disk) (found : RootedReference) (st : Workspace × Copied) : Prop :=
  (sourceOf site found.address).suffix ∈ bundledSuffixes → Registered look (sourceOf site found.address) st

/-- Files have been written in the output directory, and nothing else. -/
abbrev FillsOutput (site : Site) (home : Location) : Disk → Disk → Prop := Changes Nowhere (Beneath home [site.outDir])

theorem Advances.fillsOutput (h : Advances site home st t) : FillsOutput site home st.1.disk t.1.disk :=
  h.disk.mono (fun _ hc => hc) fun _ hl => .inr (Beneath.above hl.assetsPart)

/-- The files of the pages, and the files that they refer to, stand outside the output directory. -/
structure Sources (site : Site) (home : Location) (d : Disk) (pages : Keyed Path) : Prop where
  inputs : ∀ item ∈ pages, ¬ Beneath home [site.outDir] (item.2.resolve d.here)
  referred : ∀ file bytes, Referred site d pages file → d.readBytes file = .ok bytes →
    ¬ Beneath home [site.outDir] (file.resolve d.here)

/-- While pages are bundled, files are written in the output directory until it is as on a certain disk. A file that
has been given a name has the one that it gets on that disk, and if fingerprints tell the files apart, what it holds
stands under that name. -/
structure Stocked (site : Site) (home : Location) (look : Disk) (pages : Keyed Path) (st : Workspace × Copied) :
    Prop where
  later : FillsOutput site home st.1.disk look
  names : ∀ file name, st.2.nameOf? file = some name →
    Referred site look pages file ∧ ∃ bytes, look.readBytes file = .ok bytes ∧ name = bundledName file bytes
  stored : Unambiguous site look pages → ∀ file bytes, st.2.nameOf? file = some (bundledName file bytes) →
    look.readBytes file = .ok bytes → st.1.disk.readBytes ((assetsRoot site).join (bundledName file bytes)) = .ok bytes

namespace Stocked

theorem same (h : Stocked site home look pages st) : SameFiles (Beneath home [site.outDir]) look st.1.disk :=
  h.later.sameFiles.symm

theorem readBytes_iff (h : Stocked site home look pages st) (hsources : Sources site home look pages)
    (hfile : Referred site look pages file) :
    st.1.disk.readBytes file = .ok bytes ↔ look.readBytes file = .ok bytes := by
  have hread : ∀ bytes, look.readBytes file = .ok bytes →
      (st.1.disk.readBytes file = .ok bytes ↔ look.readBytes file = .ok bytes) := fun bytes hbytes =>
    h.same.read file bytes (hsources.referred file bytes hfile hbytes)
  constructor
  · intro hbytes
    obtain ⟨bytes', hbytes'⟩ := h.later.readBytes_kept hbytes
    rw [(hread bytes' hbytes').2 hbytes'] at hbytes
    exact hbytes' ▸ hbytes
  · exact fun hbytes => (hread bytes hbytes).2 hbytes

end Stocked

section

variable (hplaced : Placed site home) (hhome : PlainNames home)
include hplaced hhome

theorem Replaced.advances (h : Replaced site found source st text t) : Advances site home st t := by
  refine ⟨h.changes hplaced hhome, fun file name hname => ?_⟩
  cases h with
  | kept | known => exact hname
  | copied hsuffix hnew hread hwrite hnames =>
    rw [hnames, if_neg, hname]
    rintro rfl
    rw [hnew] at hname
    cases hname

theorem advances_substitute
    (h : Yields (Scan.substituteM rootedReference (replaceReference site (assetsRoot site)) s) st text t) :
    Advances site home st t := by
  obtain ⟨texts, -, hcourse⟩ := course_of_substituteM h
  exact hcourse.keeps (I := Advances site home st)
    (fun mark _ text u v hu hrun => hu.trans (hrun.advances hplaced hhome)) (.refl st)

/-- A file is copied that has not been copied before. -/
theorem Stocked.copied (h : Stocked site home look pages st) (hfile : Referred site look pages file)
    (hread : look.readBytes file = .ok bytes)
    (hwrite : st.1.disk.writeBytes ((assetsRoot site).join (bundledName file bytes)) bytes = .ok t.1.disk)
    (hnames : ∀ other, t.2.nameOf? other =
      if file = other then some (bundledName file bytes) else st.2.nameOf? other)
    (hlater : FillsOutput site home t.1.disk look) : Stocked site home look pages t := by
  have hchange := changes_writeAsset hplaced hhome (hfile.fileName hplaced hhome bytes) hwrite
  have hold : ∀ {other name}, t.2.nameOf? other = some name →
      other = file ∧ name = bundledName file bytes ∨ st.2.nameOf? other = some name := by
    intro other name hname
    rw [hnames] at hname
    split at hname
    · exact .inl ⟨Eq.symm ‹_›, (Option.some.inj hname).symm⟩
    · exact .inr hname
  have hreferred : ∀ {other name}, t.2.nameOf? other = some name → Referred site look pages other := by
    intro other name hname
    rcases hold hname with ⟨rfl, -⟩ | hname
    · exact hfile
    · exact (h.names other name hname).1
  refine ⟨hlater, fun other name hname => ?_, fun hunambiguous other bytes' hname hread' => ?_⟩
  · rcases hold hname with ⟨rfl, rfl⟩ | hname
    · exact ⟨hfile, bytes, hread, rfl⟩
    · exact h.names other name hname
  · by_cases hsame : bundledName file bytes = bundledName other bytes'
    · obtain rfl := hunambiguous.eq_of_bundledName hfile (hreferred hname) hread hread' hsame
      rw [← hsame]
      exact Disk.readBytes_writeBytes hwrite
    · have hbefore := (hold hname).resolve_left fun hc => hsame hc.2.symm
      refine (hchange.sameFiles.read _ _ ?_).2 (h.stored hunambiguous other bytes' hbefore hread')
      rw [resolve_asset hplaced hhome _ ((hreferred hname).fileName hplaced hhome bytes')]
      exact fun hc => hsame (List.singleton_inj.1 (List.append_cancel_left hc)).symm

/-- A reference is replaced by what it stands for on the disk that is looked at, and the file that it stands for has
its name from then on. -/
theorem Stocked.replaced (h : Stocked site home look pages st) (hsources : Sources site home look pages)
    (hreferred : (sourceOf site found.address).suffix ∈ bundledSuffixes →
      Referred site look pages (sourceOf site found.address))
    (hrun : Replaced site found source st text t)
    (hlater : FillsOutput site home t.1.disk look) :
    Stocked site home look pages t ∧ text = replacement site look found source ∧ Covered site look found t := by
  have hsame : ∀ {bytes}, (sourceOf site found.address).suffix ∈ bundledSuffixes →
      (st.1.disk.readBytes (sourceOf site found.address) = .ok bytes ↔
        look.readBytes (sourceOf site found.address) = .ok bytes) := fun hsuffix =>
    h.readBytes_iff hsources (hreferred hsuffix)
  unfold replacement
  simp only [List.elem_iff]
  cases hrun with
  | kept hfile =>
    have hnone : ∀ bytes, (sourceOf site found.address).suffix ∈ bundledSuffixes →
        look.readBytes (sourceOf site found.address) ≠ .ok bytes := by
      intro bytes hsuffix hread
      have hthere := isFile_of_readBytes ((hsame hsuffix).2 hread)
      rw [hfile (List.elem_iff.2 hsuffix)] at hthere
      cases hthere
    refine ⟨h, ?_, fun hsuffix bytes hread => absurd hread (hnone bytes hsuffix)⟩
    split
    · rename_i hsuffix
      cases hread : look.readBytes (sourceOf site found.address) with
      | error e => rfl
      | ok bytes => exact absurd hread (hnone bytes hsuffix)
    · rfl
  | known hsuffix hname =>
    -- an earlier page referred to the file, and it has not changed since
    obtain ⟨-, bytes, hread, rfl⟩ := h.names _ _ hname
    refine ⟨h, by rw [if_pos (List.elem_iff.1 hsuffix), hread], fun _ bytes' hread' => ?_⟩
    rw [hread] at hread'
    cases hread'
    exact hname
  | copied hsuffix hnew hread hwrite hnames =>
    have hsuffix' := List.elem_iff.1 hsuffix
    have hlook := (hsame hsuffix').1 hread
    refine ⟨h.copied hplaced hhome (hreferred hsuffix') hlook hwrite hnames hlater, by rw [if_pos hsuffix', hlook],
      fun _ bytes' hread' => ?_⟩
    rw [hlook] at hread'
    cases hread'
    rw [hnames, if_pos rfl]

/-- The references of a text are replaced, which comes to one substitution. -/
theorem Stocked.substitute (h : Stocked site home look pages st) (hsources : Sources site home look pages)
    (hreferred : ∀ file, RefersTo site s file → Referred site look pages file)
    (hrun : Yields (Scan.substituteM rootedReference (replaceReference site (assetsRoot site)) s) st text t)
    (hlater : FillsOutput site home t.1.disk look) :
    Stocked site home look pages t ∧ text = bundledText site look s ∧
      ∀ file, RefersTo site s file → Registered look file t := by
  obtain ⟨texts, rfl, hcourse⟩ := course_of_substituteM hrun
  replace hcourse := hcourse.before_last (R := fun u v => FillsOutput site home u.1.disk v.1.disk)
    (fun _ => .refl _ _ _) (fun _ _ _ => .trans) fun _ _ _ _ _ hrun => (hrun.advances hplaced hhome).fillsOutput
  have hreplaced : ∀ mark ∈ Scan.markPieces (Scan.scan rootedReference s), ∀ text u v,
      Stocked site home look pages u →
        Replaced site mark.1 mark.2 u text v ∧ FillsOutput site home v.1.disk t.1.disk →
          Stocked site home look pages v ∧ text = replacement site look mark.1 mark.2 ∧ Covered site look mark.1 v := by
    intro mark hmark text u v hu hrun
    refine hu.replaced hplaced hhome hsources (fun hsuffix => hreferred _ ?_) hrun.1 (hrun.2.trans hlater)
    exact ⟨hsuffix, mark.1, mem_marks_of_mark (Scan.mem_markPieces.1 hmark), rfl⟩
  have hkeep : (Scan.markPieces (Scan.scan rootedReference s)).Pairwise fun mark other => ∀ text u v,
      Stocked site home look pages u → Covered site look mark.1 u →
        Replaced site other.1 other.2 u text v ∧ FillsOutput site home v.1.disk t.1.disk → Covered site look mark.1 v :=
    List.pairwise_of_forall fun mark other text u v _ hcovered hrun hsuffix =>
      (hcovered hsuffix).advance (hrun.1.advances hplaced hhome)
  have hfill : texts = (Scan.markPieces (Scan.scan rootedReference s)).map
      fun mark => replacement site look mark.1 mark.2 :=
    hcourse.map_eq (fun mark hmark text u v hu hrun =>
      ⟨(hreplaced mark hmark text u v hu hrun).1, (hreplaced mark hmark text u v hu hrun).2.1⟩) h
  have hstep : ∀ mark ∈ Scan.markPieces (Scan.scan rootedReference s), ∀ text u v, Stocked site home look pages u →
      Replaced site mark.1 mark.2 u text v ∧ FillsOutput site home v.1.disk t.1.disk →
        Stocked site home look pages v ∧ Covered site look mark.1 v := fun mark hmark text u v hu hrun =>
    ⟨(hreplaced mark hmark text u v hu hrun).1, (hreplaced mark hmark text u v hu hrun).2.2⟩
  obtain ⟨hend, hcovered⟩ := hcourse.establishes _ hstep hkeep h
  refine ⟨hend, ?_, fun file hrefers => ?_⟩
  · rw [hfill]
    exact Scan.fill_map_marks _ _ _
  · obtain ⟨hsuffix, found, hfound, rfl⟩ := hrefers
    rw [Scan.marks_eq] at hfound
    obtain ⟨mark, hin, rfl⟩ := List.mem_map.1 hfound
    exact hcovered mark hin hsuffix

/-! ## Pages -/

theorem BundlesPage.changes {o : Unit} (h : BundlesPage site item o st t) :
    Changes Nowhere (fun l => BundledAsset site home l ∨ l = targetOf site item.1) st.1.disk t.1.disk := by
  obtain ⟨html, text, v, -, htext, hwrite, -⟩ := h
  have hassets := (advances_substitute hplaced hhome htext).disk
  exact (hassets.mono (fun _ hc => hc) fun l hl => .inr (.inl hl)).trans
    ((changes_writePage hplaced hhome hwrite).mono (fun _ hc => hc) fun l hl => .inr (.inr hl))

theorem BundlesPage.fillsOutput {o : Unit} (h : BundlesPage site item o st t)
    (hinside : Beneath home [site.outDir] (targetOf site item.1)) : FillsOutput site home st.1.disk t.1.disk := by
  refine (h.changes hplaced hhome).mono (fun _ hc => hc) fun l hl => .inr ?_
  rcases hl with hasset | rfl
  · exact Beneath.above hasset.assetsPart
  · exact hinside

/-- A page has been bundled as it is on a certain disk: its text is there with the references replaced, and the files
that it refers to have got their names. -/
def BundledAs (site : Site) (look : Disk) (item : Text × Path) (st : Workspace × Copied) : Prop :=
  ∃ s, textIn look item.2 = .ok s ∧
    st.1.disk.readBytes (pageFile site.bundledRoot item.1) = .ok (Utf8.encode (bundledText site look s)) ∧
    ∀ file, RefersTo site s file → Registered look file st

theorem Stocked.page {o : Unit} (h : Stocked site home look pages st) (hsources : Sources site home look pages)
    (hitem : item ∈ pages) (hinside : Beneath home [site.outDir] (targetOf site item.1))
    (hrun : BundlesPage site item o st t) (hlater : FillsOutput site home t.1.disk look) :
    Stocked site home look pages t ∧ BundledAs site look item t := by
  obtain ⟨html, text, v, hread, htext, hwrite, hnames⟩ := hrun
  have hhtml : textIn look item.2 = .ok html := (h.same.textIn_iff (hsources.inputs item hitem)).1 hread
  have hreferred : ∀ file, RefersTo site html file → Referred site look pages file := fun file hfile =>
    ⟨item, hitem, html, hhtml, hfile⟩
  have hchange := changes_writePage hplaced hhome hwrite
  have hwritten : FillsOutput site home v.1.disk t.1.disk :=
    hchange.mono (fun _ hc => hc) fun l hl => .inr (hl ▸ hinside)
  obtain ⟨hv, rfl, hregistered⟩ := h.substitute hplaced hhome hsources hreferred htext (hwritten.trans hlater)
  refine ⟨⟨hlater, by rw [hnames]; exact hv.names, fun hunambiguous file bytes hname hbytes => ?_⟩,
    html, hhtml, Disk.readBytes_writeBytes hwrite, fun file hfile bytes hbytes => ?_⟩
  · rw [hnames] at hname
    have hfile := (hv.names file _ hname).1
    refine (hchange.sameFiles.read _ _ ?_).2 (hv.stored hunambiguous file bytes hname hbytes)
    rw [resolve_asset hplaced hhome _ (hfile.fileName hplaced hhome bytes)]
    exact assetAt_ne_targetOf ⟨_, hfile.suffix, List.suffix_append _ _⟩ _
  · rw [hnames]
    exact hregistered file hfile bytes hbytes

theorem BundledAs.keep {other : Text × Path} {o : Unit} (h : BundledAs site look item st)
    (hne : targetOf site item.1 ≠ targetOf site other.1) (hrun : BundlesPage site other o st t) :
    BundledAs site look item t := by
  have hchange := hrun.changes hplaced hhome
  obtain ⟨s, hs, hpage, hregistered⟩ := h
  obtain ⟨html, text, v, -, htext, -, hnames⟩ := hrun
  refine ⟨s, hs, (hchange.sameFiles.read _ _ ?_).2 hpage, fun file hfile bytes hbytes => ?_⟩
  · rw [resolve_pageFile hplaced]
    rintro (⟨name, hname, hasset⟩ | hother)
    · exact assetAt_ne_targetOf hname _ hasset.symm
    · exact hne hother
  · rw [hnames]
    exact (advances_substitute hplaced hhome htext).names _ _ (hregistered file hfile bytes hbytes)

end

/-- The pages go to files of their own in the output directory. -/
structure Apart (site : Site) (home : Location) (pages : Keyed Path) : Prop where
  inside : ∀ item ∈ pages, Beneath home [site.outDir] (targetOf site item.1)
  distinct : pages.Pairwise fun item other => targetOf site item.1 ≠ targetOf site other.1

theorem targetOf_fileName (hplaced : Placed site home) (hhome : PlainNames home) {route : Text}
    (hroute : Path.FileName route) :
    targetOf site route = home ++ [site.outDir] ++ [site.tmpDir] ++ [route ++ ".html".toList] := by
  have hname : Path.FileName (route ++ ".html".toList) := hroute.append (by decide) (by decide)
  rw [targetOf, pageFile, Path.resolve_join hname, Site.bundledRoot, Path.resolve_join hplaced.tmpName, Site.outRoot,
    Path.resolve_join hplaced.outName, hplaced.root, Path.resolve_plain hhome]

theorem Apart.of_fileName (hplaced : Placed site home) (hhome : PlainNames home)
    (hroutes : ∀ item ∈ pages, Path.FileName item.1) (hnodup : (Keyed.keys pages).Nodup) : Apart site home pages := by
  refine ⟨fun item hitem => ?_, ?_⟩
  · rw [targetOf_fileName hplaced hhome (hroutes item hitem)]
    refine ⟨site.outDir, List.mem_singleton_self _, ?_⟩
    rw [List.append_assoc (home ++ [site.outDir])]
    exact List.prefix_append _ _
  · refine (List.pairwise_map.1 hnodup).imp_of_mem fun hitem hother hne hsame => hne ?_
    rw [targetOf_fileName hplaced hhome (hroutes _ hitem), targetOf_fileName hplaced hhome (hroutes _ hother)] at hsame
    exact List.append_cancel_right (List.singleton_inj.1 (List.append_cancel_left hsame))

theorem not_beneath_document (hplaced : Placed site home) (hhome : PlainNames home) (hdirs : site.tmpDir ≠ site.outDir)
    {route : Text} (hroute : Path.FileName route) (here : Location) :
    ¬ Beneath home [site.outDir] ((pageFile site.tmpRoot route).resolve here) := by
  have hname : Path.FileName (route ++ ".html".toList) := hroute.append (by decide) (by decide)
  rw [pageFile, Path.resolve_join hname, Site.tmpRoot, Path.resolve_join hplaced.tmpName, hplaced.root,
    Path.resolve_plain hhome, List.append_assoc]
  exact spares_beneath_of_not_mem (List.mem_singleton.not.2 hdirs) _ _ (List.prefix_refl _)

/-- The pages that are materialised go to files of their own in the output directory. Their documents stand outside
it, unless the temporary directory is the output directory. -/
theorem Apart.of_materializeSite (hplaced : Placed site home) {tree : Variables} {w w' : Workspace}
    {made : Artifacts} (hground : Disk.Ground home w.disk)
    (h : outcome (materializeSite site tree) w = (.ok made, w')) :
    Apart site home made.pages ∧ (site.tmpDir ≠ site.outDir →
      ∀ item ∈ made.pages, ∀ here, ¬ Beneath home [site.outDir] (item.2.resolve here)) := by
  have hroutes : ∀ item ∈ made.pages, Path.FileName item.1 := fun item hitem =>
    fileName_routes hplaced hground.sound _ ((routes_materializeSite h).2 _ (List.mem_map_of_mem hitem))
  obtain ⟨_, _, _, _, hpages⟩ := course_of_materializeSite h
  constructor
  · refine .of_fileName hplaced hground.plain hroutes ?_
    rw [hpages, Keyed.keys, List.map_map]
    exact nodup_keys_pagesFound site w
  · intro hdirs item hitem here
    have hroute := hroutes item hitem
    rw [hpages] at hitem
    obtain ⟨found, hfound, rfl⟩ := List.mem_map.1 hitem
    exact not_beneath_document hplaced hground.plain hdirs ((mem_pagesFound hfound).1 ▸ hroute) here

section

variable {units : List Unit} (hplaced : Placed site home) (hhome : PlainNames home) (hapart : Apart site home pages)
  (hcourse : Course (BundlesPage site) pages units st t)
include hplaced hhome hapart hcourse

omit hapart in
theorem changes_bundlesPages :
    Changes Nowhere (fun l => BundledAsset site home l ∨ ∃ item ∈ pages, l = targetOf site item.1)
      st.1.disk t.1.disk :=
  hcourse.keeps (I := fun u => Changes Nowhere _ st.1.disk u.1.disk)
    (fun item hitem _ _ _ hu hrun => hu.trans <| (hrun.changes hplaced hhome).mono (fun _ hc => hc) fun _ hl =>
      .inr (hl.imp id fun hl => ⟨item, hitem, hl⟩))
    (.refl _ _ _)

theorem fillsOutput_bundlesPages : FillsOutput site home st.1.disk t.1.disk := by
  refine (changes_bundlesPages hplaced hhome hcourse).mono (fun _ hc => hc) fun l hl => .inr ?_
  rcases hl with hasset | ⟨item, hitem, rfl⟩
  · exact Beneath.above hasset.assetsPart
  · exact hapart.inside item hitem

/-- Pages are bundled as they are in the end. -/
theorem bundledCourse (hnew : ∀ file, st.2.nameOf? file = none) (hsources : Sources site home t.1.disk pages) :
    Stocked site home t.1.disk pages t ∧ ∀ item ∈ pages, BundledAs site t.1.disk item t := by
  have hstart : Stocked site home t.1.disk pages st := by
    refine ⟨fillsOutput_bundlesPages hplaced hhome hapart hcourse, fun file name hname => ?_,
      fun _ file bytes hname => ?_⟩ <;>
    · rw [hnew] at hname
      cases hname
  replace hcourse := hcourse.before_last (R := fun u v => FillsOutput site home u.1.disk v.1.disk)
    (fun _ => .refl _ _ _) (fun _ _ _ => .trans) fun item hitem _ _ _ hrun =>
      hrun.fillsOutput hplaced hhome (hapart.inside item hitem)
  refine hcourse.establishes (BundledAs site t.1.disk) (fun item hitem o u v hu hrun => ?_) ?_ hstart
  · exact hu.page hplaced hhome hsources hitem (hapart.inside item hitem) hrun.1 hrun.2
  · exact hapart.distinct.imp fun hne o u v _ hpost hrun => hpost.keep hplaced hhome hne hrun.1

end

end Sitewright.Build
