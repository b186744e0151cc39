import Sitewright.Proofs.File.Spelling
import Sitewright.Proofs.Serve.Boundary
import Sitewright.Proofs.Text.Splitting
/-!
# Where requests lead

A requested path is cut into segments, and the empty ones and those of dots are dropped. What is left leads below the
directory that it is joined to, so the fragment of a page lies below the directory of pages, and a static file below
the root of the project. A static file is served just where no segment is hidden, and the last one is no secret.

* `keptSegments`: what is left of a path.
* `IsSecret`: a name, in lower case, that is never served.

Main statement: `requests_confined`.
-/
set_option autoImplicit false

namespace Sitewright

variable {s front : Text} {parts : List Text}

/-! ## Patterns -/

namespace Wildcard

variable {pattern : List Part}

theorem fits_exact :
    fits (front.map .exact ++ pattern) s = true ↔ ∃ rest, s = front ++ rest ∧ fits pattern rest = true := by
  induction front generalizing s with
  | nil => simp
  | cons a front ih =>
    cases s with
    | nil => simp [fits]
    | cons c s =>
      rw [List.map_cons, List.cons_append, fits, Bool.and_eq_true, beq_iff_eq, ih]
      constructor
      · rintro ⟨rfl, rest, rfl, hrest⟩
        exact ⟨rest, rfl, hrest⟩
      · rintro ⟨rest, hs, hrest⟩
        obtain ⟨rfl, rfl⟩ := List.cons.inj hs
        exact ⟨rfl, rest, rfl, hrest⟩

theorem fits_nil : fits [] s = true ↔ s = [] := by cases s <;> simp [fits]

theorem fits_anyRun : fits (.anyRun :: pattern) s = true ↔ ∃ rest, rest <:+ s ∧ fits pattern rest = true := by
  induction s with
  | nil => simp [fits]
  | cons c s ih =>
    rw [fits, Bool.or_eq_true, ih]
    constructor
    · rintro (h | ⟨rest, hrest, h⟩)
      · exact ⟨c :: s, List.suffix_refl _, h⟩
      · exact ⟨rest, hrest.trans (List.suffix_cons c s), h⟩
    · rintro ⟨rest, hrest, h⟩
      rcases List.suffix_cons_iff.1 hrest with rfl | hrest
      · exact .inl h
      · exact .inr ⟨rest, hrest, h⟩

theorem fits_whole : fits (front.map .exact) s = true ↔ s = front := by
  rw [← List.append_nil (front.map Part.exact), fits_exact]
  simp [fits_nil]

theorem fits_ending : fits (.anyRun :: front.map .exact) s = true ↔ front <:+ s := by
  rw [fits_anyRun]
  simp [fits_whole]

theorem fits_beginning : fits (front.map .exact ++ [.anyRun]) s = true ↔ front <+: s := by
  rw [fits_exact]
  have hany : ∀ rest, fits [.anyRun] rest = true := fun rest => fits_anyRun.2 ⟨[], List.nil_suffix, by simp [fits]⟩
  constructor
  · rintro ⟨rest, rfl, -⟩
    exact List.prefix_append front rest
  · rintro ⟨rest, rfl⟩
    exact ⟨rest, rfl, hany rest⟩

end Wildcard

namespace Serve

open Reading (outcome)

/-! ## Segments -/

/-- What is left of a path without its empty segments and those of dots. -/
def keptSegments (path : Text) : List Text := (Text.splitOn '/' path).filter isKept

theorem isKept_iff : isKept s = true ↔ s ≠ [] ∧ s ≠ ['.'] ∧ s ≠ ['.', '.'] := by
  simp [isKept, and_assoc]

theorem mem_keptSegments {path segment : Text} : segment ∈ keptSegments path ↔
    segment ∈ Text.splitOn '/' path ∧ segment ≠ [] ∧ segment ≠ ['.'] ∧ segment ≠ ['.', '.'] := by
  rw [keptSegments, List.mem_filter, isKept_iff]

theorem fileName_of_kept {path segment : Text} (h : segment ∈ keptSegments path) : Path.FileName segment := by
  obtain ⟨hmem, hempty, hdot, hdots⟩ := mem_keptSegments.1 h
  exact ⟨hempty, hdot, hdots, Text.not_mem_of_mem_splitOn hmem⟩

theorem splitOn_sanitize {path : Text} (h : keptSegments path ≠ []) :
    Text.splitOn '/' (sanitize path) = keptSegments path :=
  Text.splitOn_join h fun _ hsegment => (fileName_of_kept hsegment).noSlash

theorem keptSegments_sanitize (path : Text) : keptSegments (sanitize path) = keptSegments path := by
  by_cases h : keptSegments path = []
  · have hnil : sanitize path = [] := by
      change Text.join ['/'] (keptSegments path) = []
      rw [h]
      rfl
    rw [hnil, h]
    rfl
  · rw [keptSegments, splitOn_sanitize h, keptSegments, List.filter_filter]
    simp

theorem sanitize_sanitize (path : Text) : sanitize (sanitize path) = sanitize path := by
  change Text.join ['/'] (keptSegments (sanitize path)) = Text.join ['/'] (keptSegments path)
  rw [keptSegments_sanitize]

theorem sanitize_eq_nil_iff {path : Text} : sanitize path = [] ↔ keptSegments path = [] := by
  constructor
  · intro h
    rw [← keptSegments_sanitize, h]
    rfl
  · intro h
    change Text.join ['/'] (keptSegments path) = []
    rw [h]
    rfl

/-! ## Paths below a directory -/

theorem partsOf_sanitize (path : Text) : Path.partsOf (sanitize path) = keptSegments path := by
  rw [← keptSegments_sanitize path, Path.partsOf, keptSegments]
  by_cases h : keptSegments path = []
  · rw [sanitize_eq_nil_iff.2 h]
    rfl
  · rw [splitOn_sanitize h]
    apply List.filter_congr
    intro segment hsegment
    have hname := fileName_of_kept hsegment
    have hpart : Path.isPart segment = true := by simp [Path.isPart, hname.nonempty, hname.not_dot]
    rw [hpart, isKept_iff.2 ⟨hname.nonempty, hname.not_dot, hname.not_dots⟩]

theorem anchorOf_sanitize (path : Text) : Path.anchorOf (sanitize path) = .here := by
  change Path.anchorOf (Text.join ['/'] (keptSegments path)) = .here
  have hnames : ∀ segment ∈ keptSegments path, Path.FileName segment := fun _ h => fileName_of_kept h
  cases hkept : keptSegments path with
  | nil => rfl
  | cons first rest =>
    rw [hkept] at hnames
    have hfirst := hnames first List.mem_cons_self
    cases first with
    | nil => exact absurd rfl hfirst.nonempty
    | cons c first =>
      have hc : c ≠ '/' := fun hc => hfirst.noSlash (hc ▸ List.mem_cons_self)
      have hjoin : ∃ tail, Text.join ['/'] ((c :: first) :: rest) = c :: tail := by
        cases rest with
        | nil => exact ⟨first, by simp [Text.join, List.intercalate]⟩
        | cons second rest =>
          rw [Text.join_cons_cons, List.cons_append, List.cons_append]
          exact ⟨_, rfl⟩
      obtain ⟨tail, htail⟩ := hjoin
      rw [htail]
      unfold Path.anchorOf
      split <;> simp_all

theorem join_sanitize (p : Path) (path : Text) : p.join (sanitize path) = ⟨p.anchor, p.parts ++ keptSegments path⟩ := by
  rw [Path.join, Path.ofText, anchorOf_sanitize, partsOf_sanitize]
  rfl

theorem resolve_below {p : Path} (h : ['.', '.'] ∉ parts) (here : Location) :
    (⟨p.anchor, p.parts ++ parts⟩ : Path).resolve here = p.resolve here ++ parts := by
  unfold Path.resolve
  cases p.anchor <;> simp only [Path.follow_append, Path.follow_of_not_mem h]

theorem dots_not_mem_kept (path : Text) : ['.', '.'] ∉ keptSegments path :=
  fun h => (fileName_of_kept h).not_dots rfl

/-! ## Secrets -/

/-- A name, in lower case, that is never served. -/
def IsSecret (name : Text) : Prop :=
  name = ".env".toList ∨ ".env.".toList <+: name ∨ ".pem".toList <:+ name ∨ ".crt".toList <:+ name ∨
    ".key".toList <:+ name ∨ name = "pageforge.yaml".toList

theorem deniedNames_iff {name : Text} :
    (deniedNames.any fun pattern => Wildcard.fits (Wildcard.ofText pattern) name) = true ↔ IsSecret name := by
  have hexact : ∀ front : Text, '*' ∉ front → Wildcard.ofText front = front.map .exact := by
    intro front hfront
    apply List.map_congr_left
    intro c hc
    exact if_neg fun heq : c = '*' => hfront (heq ▸ hc)
  have hending : ∀ front : Text, '*' ∉ front → Wildcard.ofText ('*' :: front) = .anyRun :: front.map .exact :=
    fun front hfront => congrArg _ (hexact front hfront)
  have hbeginning : Wildcard.ofText ".env.*".toList = ".env.".toList.map .exact ++ [.anyRun] := by
    change List.map _ (".env.".toList ++ ['*']) = _
    rw [List.map_append]
    exact congrArg (· ++ _) (hexact ".env.".toList (by decide))
  unfold deniedNames IsSecret
  simp only [List.any_cons, List.any_nil, Bool.or_eq_true, Bool.false_eq_true, or_false]
  rw [hbeginning, Wildcard.fits_beginning, hexact _ (by decide), Wildcard.fits_whole,
    hexact "pageforge.yaml".toList (by decide), Wildcard.fits_whole]
  have hpem := hending ".pem".toList (by decide)
  have hcrt := hending ".crt".toList (by decide)
  have hkey := hending ".key".toList (by decide)
  rw [show "*.pem".toList = '*' :: ".pem".toList from rfl, show "*.crt".toList = '*' :: ".crt".toList from rfl,
    show "*.key".toList = '*' :: ".key".toList from rfl, hpem, hcrt, hkey, Wildcard.fits_ending, Wildcard.fits_ending,
    Wildcard.fits_ending]

/-- The segments of a static file that is served: none is hidden, and the last one is no secret. -/
structure Servable (segments : List Text) : Prop where
  nonempty : segments ≠ []
  shown : ∀ segment ∈ segments, segment.head? ≠ some '.'
  noSecret : ¬ IsSecret (Text.lower (segments.getLast?.getD []))

theorem startsWith_dot (segment : Text) : Text.startsWith ['.'] segment = true ↔ segment.head? = some '.' := by
  rw [Text.startsWith_iff]
  cases segment <;> simp [List.cons_prefix_cons, eq_comm]

theorem isDenied_sanitize {path : Text} (h : keptSegments path ≠ []) :
    isDenied (sanitize path) = false ↔ Servable (keptSegments path) := by
  unfold isDenied
  rw [splitOn_sanitize h, Bool.or_eq_false_iff, List.any_eq_false, ← Bool.not_eq_true (List.any _ _), deniedNames_iff]
  simp only [startsWith_dot]
  exact ⟨fun ⟨hshown, hsecret⟩ => ⟨h, hshown, hsecret⟩, fun hs => ⟨hs.shown, hs.noSecret⟩⟩

/-! ## Static files -/

variable {site : Site} {tree : Variables} {d : Disk} {l : Log} {method : Method} {target path : Text} {bytes : Bytes}

/-- A static file is served just where its segments allow it and it can be read. -/
theorem serveStatic_file_iff : (outcome (serveStatic site path) d l).1 = .ok (.file bytes) ↔
    Servable (keptSegments path) ∧
      d.readBytes ⟨site.root.anchor, site.root.parts ++ keptSegments path⟩ = .ok bytes := by
  unfold serveStatic
  by_cases hkept : keptSegments path = []
  · have hempty : (sanitize path).isEmpty = true := List.isEmpty_iff.2 (sanitize_eq_nil_iff.2 hkept)
    simp only [hempty, Bool.true_or, if_true]
    exact iff_of_false nofun fun h => h.1.nonempty hkept
  · have hempty : (sanitize path).isEmpty = false :=
      List.isEmpty_eq_false_iff.2 fun h => hkept (sanitize_eq_nil_iff.1 h)
    rw [← isDenied_sanitize hkept, ← join_sanitize]
    simp only [hempty, Bool.false_or]
    cases isDenied (sanitize path) with
    | true => exact iff_of_false nofun fun h => nomatch h.1
    | false =>
      simp only [Bool.false_eq_true, if_false, true_and]
      rw [Reading.outcome_bind, Reading.outcome_read]
      simp only
      cases d.readBytes (site.root.join (sanitize path)) with
      | error e => exact iff_of_false nofun nofun
      | ok bytes' => exact ⟨fun h => by cases h; rfl, fun h => by cases h; rfl⟩

theorem serveStatic_of_servePath (h : (outcome (servePath site tree path) d l).1 = .ok (.file bytes)) :
    ∃ l', (outcome (serveStatic site path) d l').1 = .ok (.file bytes) := by
  rw [outcome_servePath] at h
  split at h
  · exact ⟨l, h⟩
  · split at h
    · cases h
    · split at h
      · cases h
      · exact ⟨_, h⟩
      · cases h

theorem serveStatic_of_respond (h : (outcome (respond site tree method target) d l).1 = .ok (.file bytes)) :
    ∃ path l', Asks method target path ∧ (outcome (serveStatic site path) d l').1 = .ok (.file bytes) := by
  by_cases hasks : ∃ path, Asks method target path
  · obtain ⟨path, hasks⟩ := hasks
    rw [outcome_respond_of_asks hasks] at h
    have hpath : (outcome (servePath site tree path) d l).1 = .ok (.file bytes) := by
      rcases hrun : outcome (servePath site tree path) d l with ⟨_ | reply, l'⟩
      · rw [hrun] at h
        cases h
      · rw [hrun] at h
        exact h
    obtain ⟨l', hstatic⟩ := serveStatic_of_servePath hpath
    exact ⟨path, l', hasks, hstatic⟩
  · rw [not_exists] at hasks
    obtain ⟨reply, hreply, -, hfile, -⟩ := outcome_respond_at_once site tree d l hasks
    rw [hreply] at h
    exact absurd (Except.ok.inj h) (hfile bytes)

theorem entryAt_of_readBytes_kept {p : Path} (h : d.readBytes ⟨p.anchor, p.parts ++ keptSegments path⟩ = .ok bytes) :
    ∃ stamp, FileTree.entryAt (p.resolve d.here ++ keptSegments path) d.tree = some (.file bytes stamp) := by
  obtain ⟨loc, stamp, hplace⟩ := Disk.place_of_readBytes h
  have hloc : loc = p.resolve d.here ++ keptSegments path := by
    rw [← resolve_below (dots_not_mem_kept path) d.here]
    exact Disk.location_place hplace
  exact ⟨stamp, hloc ▸ Disk.place_file hplace⟩

/-! ## Fragments -/

theorem of_pageName? {name : Text} (h : pageName? path = some name) :
    path = '/' :: (name ++ ".html".toList) ∨ path = '/' :: (name ++ ".html\n".toList) := by
  have hcut : ∀ {s : Text}, Text.endsWith ".html".toList s = true →
      s = s.take (s.length - ".html".toList.length) ++ ".html".toList := by
    intro s hs
    obtain ⟨front, rfl⟩ := Text.endsWith_iff.1 hs
    rw [List.length_append, Nat.add_sub_cancel, List.take_left]
  unfold pageName? at h
  simp only at h
  split at h
  · rename_i rest hrest
    split at h
    · rename_i hends
      split at h
      · cases h
      · cases h
        have hrest' := hcut hends
        split at hrest
        · rename_i hbreak
          -- the line break at the end is passed over
          obtain ⟨front, rfl⟩ := Text.endsWith_iff.1 hbreak
          have hdrop : (front ++ ".html\n".toList).dropLast = front ++ ".html".toList := by
            rw [List.dropLast_append_of_ne_nil (by decide)]
            rfl
          rw [hdrop] at hrest
          rw [hrest'] at hrest
          right
          rw [← List.cons_append] at hrest ⊢
          rw [List.append_cancel_right hrest]
        · left
          rw [← hrest', hrest]
    · cases h
  · cases h

theorem fragment_of_pageAt {p : Page} (hroot : path ≠ ['/']) (hindex : path ≠ "/index.html".toList)
    (h : (outcome (pageAt site path) d l).1 = .ok (some p)) :
    ∃ name, (path = '/' :: (name ++ ".html".toList) ∨ path = '/' :: (name ++ ".html\n".toList)) ∧
      keptSegments name ≠ [] ∧ p.fragment =
        (⟨site.pagesRoot.anchor, site.pagesRoot.parts ++ keptSegments name⟩ : Path).join site.pageFile := by
  obtain ⟨hname, hmade⟩ := pageAt_eq_some_iff.1 h
  rw [pageNameAt?, decide_eq_false hroot, decide_eq_false hindex, Bool.or_false, if_neg Bool.false_ne_true] at hname
  obtain ⟨hsome, hne⟩ := Option.filter_eq_some_iff.1 hname
  obtain ⟨name, hpath, hsanitize⟩ := Option.map_eq_some_iff.1 hsome
  refine ⟨name, of_pageName? hpath, fun hnil => ?_, ?_⟩
  · rw [← hsanitize, sanitize_eq_nil_iff.2 hnil] at hne
    cases hne
  · rw [(Page.of_madeOn hmade).2.2.1, ← hsanitize, join_sanitize]

theorem resolve_join_below {p : Path} {s : Text} (hanchor : Path.anchorOf s = .here)
    (hdots : ['.', '.'] ∉ Path.partsOf s) (here : Location) :
    (p.join s).resolve here = p.resolve here ++ Path.partsOf s := by
  rw [← resolve_below hdots here, Path.join, Path.ofText, hanchor]
  rfl

/-! ## Requests -/

/-- Sanitising keeps the segments of a path but for the empty ones and those of dots, in order, and a second time it
changes nothing. The fragment of a page lies below the directory of pages, behind one or more such segments. A static
file that a request is answered with stands below the root of the project, where the kept segments of the path lead;
none of them is hidden and the last one is no secret, and all files that can be read at such segments are served. -/
theorem requests_confined (site : Site) (tree : Variables) (d : Disk) (l : Log) :
    (∀ path, keptSegments path = (Text.splitOn '/' path).filter (fun s => decide (s ∉ [[], ['.'], ['.', '.']])) ∧
      sanitize path = Text.join ['/'] (keptSegments path) ∧
      (keptSegments path ≠ [] → Text.splitOn '/' (sanitize path) = keptSegments path) ∧
      sanitize (sanitize path) = sanitize path) ∧
    (∀ path p, path ≠ ['/'] → path ≠ "/index.html".toList → (outcome (pageAt site path) d l).1 = .ok (some p) →
      ∃ name, (path = '/' :: (name ++ ".html".toList) ∨ path = '/' :: (name ++ ".html\n".toList)) ∧
        keptSegments name ≠ [] ∧
        p.fragment = (⟨site.pagesRoot.anchor, site.pagesRoot.parts ++ keptSegments name⟩ : Path).join site.pageFile ∧
        (Path.anchorOf site.pageFile = .here → ['.', '.'] ∉ Path.partsOf site.pageFile →
          p.fragment.resolve d.here =
            site.pagesRoot.resolve d.here ++ keptSegments name ++ Path.partsOf site.pageFile)) ∧
    (∀ path bytes, (outcome (serveStatic site path) d l).1 = .ok (.file bytes) ↔ Servable (keptSegments path) ∧
      d.readBytes ⟨site.root.anchor, site.root.parts ++ keptSegments path⟩ = .ok bytes) ∧
    ∀ method target bytes, (outcome (respond site tree method target) d l).1 = .ok (.file bytes) →
      ∃ path stamp, Asks method target path ∧ Servable (keptSegments path) ∧
        FileTree.entryAt (site.root.resolve d.here ++ keptSegments path) d.tree = some (.file bytes stamp) := by
  refine ⟨fun path => ⟨?_, rfl, splitOn_sanitize, sanitize_sanitize path⟩, fun path p hroot hindex hp => ?_,
    fun path bytes => serveStatic_file_iff, fun method target bytes hfile => ?_⟩
  · apply List.filter_congr
    intro segment _
    rw [Bool.eq_iff_iff, isKept_iff]
    simp
  · obtain ⟨name, hpath, hkept, hfragment⟩ := fragment_of_pageAt hroot hindex hp
    refine ⟨name, hpath, hkept, hfragment, fun hanchor hdots => ?_⟩
    rw [hfragment, resolve_join_below hanchor hdots, resolve_below (dots_not_mem_kept name)]
  · obtain ⟨path, l', hasks, hstatic⟩ := serveStatic_of_respond hfile
    obtain ⟨hservable, hread⟩ := serveStatic_file_iff.1 hstatic
    obtain ⟨stamp, hentry⟩ := entryAt_of_readBytes_kept hread
    exact ⟨path, stamp, hasks, hservable, hentry⟩

def imageDisk : Disk where
  tree :=
    twoPageDisk.tree ++ [(["project".toList, "imgs".toList], .directory),
      (["project".toList, "imgs".toList, "logo.svg".toList], .file [60] (.seconds 0)),
      (["project".toList, "imgs".toList, "SERVER.KEY".toList], .file [83] (.seconds 0))]
  here := []
  clock := 0

theorem asks_logo : Asks .get "/imgs/./logo.svg".toList "imgs/./logo.svg".toList :=
  ⟨.inl rfl, by cbv, by decide, by decide⟩

theorem keptSegments_logo : keptSegments "imgs/./logo.svg".toList = ["imgs".toList, "logo.svg".toList] := by decide

theorem servable_logo : Servable ["imgs".toList, "logo.svg".toList] :=
  ⟨by decide, by decide, by unfold IsSecret; decide⟩

theorem respond_logo :
    (outcome (respond twoPageSite [] .get "/imgs/./logo.svg".toList) imageDisk []).1 = .ok (.file [60]) := by
  have hpage : pageNameAt? twoPageSite ('/' :: "imgs/./logo.svg".toList) = none := by decide
  have hread : imageDisk.readBytes ⟨.root, ["project".toList, "imgs".toList, "logo.svg".toList]⟩ = .ok [60] := by cbv
  have hstatic : (outcome (serveStatic twoPageSite "imgs/./logo.svg".toList) imageDisk []).1 = .ok (.file [60]) :=
    serveStatic_file_iff.2 (keptSegments_logo ▸ ⟨servable_logo, hread⟩)
  rw [outcome_respond_of_asks asks_logo, outcome_servePath]
  simp only [hpage]
  rcases hrun : outcome (serveStatic twoPageSite "imgs/./logo.svg".toList) imageDisk [] with ⟨_ | reply, l'⟩
  · rw [hrun] at hstatic
    cases hstatic
  · rw [hrun] at hstatic
    exact hstatic

theorem pageAt_detour : (outcome (pageAt twoPageSite "/../blog/.html".toList) imageDisk []).1 =
    .ok (some (pageOfTwo "blog".toList "blog".toList)) := by
  have hmade : Page.madeOn twoPageSite imageDisk "blog".toList = .ok (pageOfTwo "blog".toList "blog".toList) := by cbv
  have hname : pageNameAt? twoPageSite "/../blog/.html".toList = some "blog".toList := by decide
  exact pageAt_eq_some_iff.2 ⟨hname, hmade⟩
/-- An image is found by a detour and served, while a key beside it is not. -/
theorem requests_confined_logo :
    sanitize "../imgs//./logo.svg".toList = "imgs/logo.svg".toList ∧
      (pageOfTwo "blog".toList "blog".toList).fragment.resolve [] =
        ["project".toList, "src".toList, "app".toList, "blog".toList, "page.html".toList] ∧
      (∀ bytes, (outcome (serveStatic twoPageSite "imgs/SERVER.KEY".toList) imageDisk []).1 ≠ .ok (.file bytes)) ∧
      ∃ path stamp, Asks .get "/imgs/./logo.svg".toList path ∧ Servable (keptSegments path) ∧
        FileTree.entryAt (["project".toList] ++ keptSegments path) imageDisk.tree = some (.file [60] stamp) := by
  obtain ⟨hpaths, hpages, hstatic, hfiles⟩ := requests_confined twoPageSite [] imageDisk []
  refine ⟨(hpaths _).2.1.trans (by decide), ?_, fun bytes h => ?_, hfiles _ _ _ respond_logo⟩
  · obtain ⟨name, hpath, -, -, hbelow⟩ := hpages _ _ (by decide) (by decide) pageAt_detour
    rcases hpath with hpath | hpath
    · obtain rfl : "../blog/".toList = name := List.append_cancel_right (List.cons.inj hpath).2
      exact (hbelow rfl (by decide)).trans (by decide)
    · have hlast := congrArg List.getLast? hpath
      rw [← List.cons_append, List.getLast?_append] at hlast
      cases hlast
  · have hkept : keptSegments "imgs/SERVER.KEY".toList = ["imgs".toList, "SERVER.KEY".toList] := by decide
    have hservable := ((hstatic _ bytes).1 h).1
    rw [hkept] at hservable
    exact hservable.noSecret (by unfold IsSecret; decide)

end Serve
end Sitewright
