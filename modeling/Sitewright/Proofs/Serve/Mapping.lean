import Sitewright.Serve.Address
import Sitewright.Proofs.Build.Discovery
import Sitewright.Proofs.Site
import Sitewright.Proofs.Text.Occurrence
/-!
# The pages behind paths

A build puts each page under its route, and the server finds the page of a path. Under the route of a page with
the suffix `.html` the server finds that very page, as long as the root route is the one whose path it knows,
which is `index`. Under any other root route the home page is still found at the root and at `/index.html`, but
not under its own route.

* `pageNameAt?`: the name of the page that a path leads to.

Main statement: `pageAt_route_iff`.
-/
set_option autoImplicit false

namespace Sitewright.Serve

open Reading (outcome)

/-! ## Names -/

theorem splitOn_of_fileName {name : Text} (h : Path.FileName name) : Text.splitOn '/' name = [name] := by
  rw [Text.splitOn, Text.splitFrom_of_not_mem h.noSlash]
  rfl

theorem sanitize_of_fileName {name : Text} (h : Path.FileName name) : sanitize name = name := by
  have hkept : isKept name = true := by
    unfold isKept
    simp [h.nonempty, h.not_dot, h.not_dots]
  rw [sanitize, splitOn_of_fileName h, List.filter_cons_of_pos hkept, List.filter_nil]
  simp [Text.join, List.intercalate]

theorem pageName?_html (name : Text) :
    pageName? ('/' :: (name ++ ".html".toList)) =
      if name.isEmpty || List.elem '\n' name then none else some name := by
  have hnoBreak : Text.endsWith ".html\n".toList ('/' :: (name ++ ".html".toList)) = false := by
    rw [Text.endsWith, ← List.cons_append, List.reverse_append]
    rfl
  have htake : (name ++ ".html".toList).take ((name ++ ".html".toList).length - ".html".toList.length) = name := by
    rw [List.length_append, Nat.add_sub_cancel, List.take_left]
  rw [pageName?]
  simp only [hnoBreak, Bool.false_eq_true, if_false, Text.endsWith_append, if_true, htake]

/-! ## Paths -/

/-- The name of the page that a path leads to; none where it leads to a static file. -/
def pageNameAt? (site : Site) (path : Text) : Option Text :=
  if path = ['/'] || path = "/index.html".toList then some site.homePage
  else ((pageName? path).map sanitize).filter fun name => !name.isEmpty

theorem outcome_pageAt (site : Site) (path : Text) (d : Disk) (l : Log) :
    outcome (pageAt site path) d l =
      (match pageNameAt? site path with
        | none => .ok none
        | some name => (Page.madeOn site d name).map some, l) := by
  have hmake : ∀ name, outcome (do return some (← Page.make site name)) d l =
      ((Page.madeOn site d name).map some, l) := by
    intro name
    rw [Reading.outcome_bind, Page.outcome_make]
    cases Page.madeOn site d name <;> rfl
  unfold pageAt pageNameAt?
  split
  · exact hmake site.homePage
  · rcases hname : (pageName? path).map sanitize with _ | _ | ⟨c, name⟩
    · rfl
    · rfl
    · exact hmake (c :: name)

theorem pageNameAt?_root (site : Site) : pageNameAt? site ['/'] = some site.homePage := rfl

theorem pageNameAt?_index (site : Site) : pageNameAt? site ('/' :: ("index".toList ++ ".html".toList)) =
    some site.homePage := rfl

theorem pageNameAt?_html {site : Site} {name : Text} (hname : Path.FileName name) (hindex : name ≠ "index".toList) :
    pageNameAt? site ('/' :: (name ++ ".html".toList)) = if '\n' ∈ name then none else some name := by
  have hroot : ¬ '/' :: (name ++ ".html".toList) = ['/'] := by simp
  have hother : ¬ '/' :: (name ++ ".html".toList) = "/index.html".toList :=
    fun h => hindex (List.append_cancel_right (List.cons.inj h).2)
  have hempty : name.isEmpty = false := List.isEmpty_eq_false_iff.2 hname.nonempty
  rw [pageNameAt?, decide_eq_false hroot, decide_eq_false hother, pageName?_html, hempty]
  by_cases hbreak : '\n' ∈ name
  · simp [hbreak]
  · simp [hbreak, sanitize_of_fileName hname, hname.nonempty]

/-! ## Pages -/

theorem pageAt_eq_some_iff {site : Site} {path : Text} {d : Disk} {l : Log} {p : Page} :
    (outcome (pageAt site path) d l).1 = .ok (some p) ↔
      pageNameAt? site path = some p.name ∧ Page.madeOn site d p.name = .ok p := by
  rw [outcome_pageAt]
  constructor
  · intro h
    cases hname : pageNameAt? site path with
    | none =>
      simp only [hname] at h
      cases h
    | some name =>
      simp only [hname] at h
      cases hmade : Page.madeOn site d name with
      | error e =>
        rw [hmade] at h
        cases h
      | ok q =>
        rw [hmade] at h
        cases h
        obtain rfl := (Page.of_madeOn hmade).1
        exact ⟨rfl, hmade⟩
  · rintro ⟨hname, hmade⟩
    simp only [hname, hmade]
    rfl

/-- Under the route of a page with the suffix `.html` the server finds that very page, unless the root route is
not `index`: then neither the home page is found under its route nor a page of that name. The home page is found
at the root in any case. -/
theorem pageAt_route_iff {site : Site} {d : Disk} {l : Log} {pages : Keyed Page}
    (hsound : FileTree.Sound d.tree) (hroot : Path.FileName site.rootRoute)
    (hpages : (outcome (Page.discover site) d l).1 = .ok pages)
    (hnames : ∀ item ∈ pages, item.2.name ≠ site.rootRoute ∧ '\n' ∉ item.2.name) :
    (∀ r p, Keyed.get? r pages = some p → ∀ l',
      ((outcome (pageAt site ('/' :: (r ++ ".html".toList))) d l').1 = .ok (some p) ↔
        site.rootRoute = "index".toList ∨ (r ≠ site.rootRoute ∧ r ≠ "index".toList))) ∧
    ∀ item ∈ pages, item.2.name = site.homePage → Keyed.get? site.rootRoute pages = some item.2 ∧
      ∀ l', (outcome (pageAt site ['/']) d l').1 = .ok (some item.2) := by
  obtain ⟨hnodup, hmade⟩ := Page.made_of_discover hpages
  constructor
  · intro r p hp l'
    have hmem := Keyed.mem_of_get? hp
    obtain ⟨hr, hpage, names, hlist, hlisted⟩ := hmade _ hmem
    obtain ⟨hnotRoot, hnoBreak⟩ := hnames _ hmem
    have hfile : Path.FileName p.name := (Disk.plain_of_list hsound hlist _ hlisted).fileName
    simp only at hr hpage hnotRoot hnoBreak
    rw [(Page.of_madeOn hpage).2.1, Page.routeOf] at hr
    rw [pageAt_eq_some_iff, and_iff_left hpage]
    by_cases hhome : p.name = site.homePage
    · rw [if_pos hhome] at hr
      by_cases hindex : site.rootRoute = "index".toList
      · rw [hr, hindex, pageNameAt?_index, hhome]
        exact iff_of_true rfl (.inl rfl)
      · rw [hr, pageNameAt?_html hroot hindex]
        refine iff_of_false (fun h => ?_) fun h => h.elim hindex fun h => h.1 rfl
        split at h
        · cases h
        · exact hnotRoot (Option.some.inj h).symm
    · rw [if_neg hhome] at hr
      by_cases hindex : p.name = "index".toList
      · rw [hr, hindex, pageNameAt?_index]
        refine iff_of_false (fun h => hhome ?_) fun h =>
          h.elim (fun h => hnotRoot (hindex.trans h.symm)) fun h => h.2 rfl
        rw [hindex, Option.some.inj h]
      · rw [hr, pageNameAt?_html hfile hindex, if_neg hnoBreak]
        exact iff_of_true rfl (.inr ⟨hnotRoot, hindex⟩)
  · intro item hitem hhome
    obtain ⟨hr, hpage, -⟩ := hmade item hitem
    rw [(Page.of_madeOn hpage).2.1, Page.routeOf, if_pos hhome] at hr
    refine ⟨Keyed.get?_of_mem hnodup (hr ▸ hitem), fun l' => ?_⟩
    exact pageAt_eq_some_iff.2 ⟨hhome ▸ pageNameAt?_root site, hpage⟩

def twoPageDisk : Disk where
  tree :=
    let pages : Location := ["project".toList, "src".toList, "app".toList]
    [([], .directory), (["project".toList], .directory), (["project".toList, "src".toList], .directory),
      (pages, .directory), (pages ++ ["home".toList], .directory), (pages ++ ["blog".toList], .directory),
      (pages ++ ["home".toList, "page.html".toList], .file (Utf8.encode "<h1>Home</h1>".toList) (.seconds 0)),
      (pages ++ ["blog".toList, "page.html".toList], .file (Utf8.encode "<h1>Blog</h1>".toList) (.seconds 0))]
  here := []
  clock := 0

def twoPageSite : Site := .usual ⟨.root, ["project".toList]⟩

/-- The page of a name in that project, under a route. -/
def pageOfTwo (route name : Text) : Page :=
  ⟨route, name, ⟨.root, ["project".toList, "src".toList, "app".toList, name, "page.html".toList]⟩, none⟩

theorem discover_twoPages : (outcome (Page.discover twoPageSite) twoPageDisk []).1 =
    .ok [("blog".toList, pageOfTwo "blog".toList "blog".toList),
      ("index".toList, pageOfTwo "index".toList "home".toList)] := by
  cbv

/-- Under the usual root route both pages are found under their routes, and the home page at the root. -/
theorem pageAt_route_twoPages :
    (outcome (pageAt twoPageSite "/blog.html".toList) twoPageDisk []).1 =
      .ok (some (pageOfTwo "blog".toList "blog".toList)) ∧
    (outcome (pageAt twoPageSite "/index.html".toList) twoPageDisk []).1 =
      .ok (some (pageOfTwo "index".toList "home".toList)) ∧
    (outcome (pageAt twoPageSite ['/']) twoPageDisk []).1 =
      .ok (some (pageOfTwo "index".toList "home".toList)) := by
  have hsound : FileTree.Sound twoPageDisk.tree := by decide
  have hroot : Path.FileName twoPageSite.rootRoute := by decide
  obtain ⟨hroutes, hhome⟩ := pageAt_route_iff hsound hroot discover_twoPages (by decide)
  exact ⟨(hroutes "blog".toList _ rfl []).2 (.inl rfl), (hroutes "index".toList _ rfl []).2 (.inl rfl),
    (hhome _ (List.mem_cons_of_mem _ List.mem_cons_self) rfl).2 []⟩

def movedSite : Site := { twoPageSite with rootRoute := "main".toList }

theorem discover_moved : (outcome (Page.discover movedSite) twoPageDisk []).1 =
    .ok [("blog".toList, pageOfTwo "blog".toList "blog".toList),
      ("main".toList, pageOfTwo "main".toList "home".toList)] := by
  cbv

theorem pageAt_moved : (outcome (pageAt movedSite "/main.html".toList) twoPageDisk []).1 =
    .ok (some (pageOfTwo "main".toList "main".toList)) := by
  have hmade : Page.madeOn movedSite twoPageDisk "main".toList = .ok (pageOfTwo "main".toList "main".toList) := by
    cbv
  have hname : Path.FileName "main".toList := by decide
  exact pageAt_eq_some_iff.2 ⟨pageNameAt?_html hname (by decide), hmade⟩

/-- Under another root route the home page is not found under its route. -/
theorem pageAt_route_moved :
    Path.FileName movedSite.homePage ∧ Path.FileName movedSite.rootRoute ∧ FileTree.Sound twoPageDisk.tree ∧
      ∃ pages p q, (outcome (Page.discover movedSite) twoPageDisk []).1 = .ok pages ∧
        (∀ item ∈ pages, item.2.name ≠ movedSite.rootRoute ∧ '\n' ∉ item.2.name) ∧
        Keyed.get? "main".toList pages = some p ∧
        (outcome (pageAt movedSite "/main.html".toList) twoPageDisk []).1 = .ok (some q) ∧ p ≠ q :=
  ⟨by decide, by decide, by decide, _, pageOfTwo "main".toList "home".toList, _, discover_moved, by decide, rfl,
    pageAt_moved, by decide⟩

end Sitewright.Serve
