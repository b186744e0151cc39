import Sitewright.Proofs.Build.Discovery
import Sitewright.Proofs.Site
/-!
# Routes of page directories

Each directory that holds a page is registered under its route. The home page has the root route, and a directory
that is named like the root route has it too: of the two only one is registered, and the root route leads back to the
home page only. With no directory of that name every page keeps a route of its own, which leads back to its directory.

* `pageDirectories`: the directories that hold a page.
* `Page.Searchable`: no name on the way to a page is longer than a file system allows.

Main statement: `discover_complete_iff`.
-/
set_option autoImplicit false

namespace Sitewright

namespace Page

open Reading (outcome outcome_bind outcome_ask)

variable {site : Site} {d : Disk} {name other : Text} {names : List Text}

/-! ## Routes -/

theorem routeOf_eq_iff (hne : site.homePage ≠ site.rootRoute) : routeOf site name = routeOf site other ↔
    name = other ∨ (name = site.homePage ∧ other = site.rootRoute) ∨
      (name = site.rootRoute ∧ other = site.homePage) := by
  unfold routeOf
  by_cases hname : name = site.homePage <;> by_cases hother : other = site.homePage
  · simp [hname, hother]
  · simp [hname, hother, hne, eq_comm (a := site.homePage), eq_comm (a := site.rootRoute)]
  · simp [hname, hother, hne]
  · simp [hname, hother]

theorem nodup_map_routeOf_iff (hne : site.homePage ≠ site.rootRoute) (hnodup : names.Nodup) :
    (names.map (routeOf site)).Nodup ↔ ¬ (site.homePage ∈ names ∧ site.rootRoute ∈ names) := by
  rw [List.nodup_map_iff_inj_on hnodup]
  constructor
  · rintro hinj ⟨hhome, hroot⟩
    exact hne (hinj _ hhome _ hroot ((routeOf_eq_iff hne).2 (.inr (.inl ⟨rfl, rfl⟩))))
  · intro hboth a ha b hb hab
    rcases (routeOf_eq_iff hne).1 hab with h | ⟨rfl, rfl⟩ | ⟨rfl, rfl⟩
    · exact h
    · exact absurd ⟨ha, hb⟩ hboth
    · exact absurd ⟨hb, ha⟩ hboth

theorem nameOf_routeOf_iff (hne : site.homePage ≠ site.rootRoute) :
    nameOf site (routeOf site name) = name ↔ name ≠ site.rootRoute := by
  unfold nameOf routeOf
  by_cases hname : name = site.homePage
  · simp [hname, hne]
  · by_cases hroot : name = site.rootRoute
    · simp [hroot, hne, Ne.symm hne]
    · simp [hname, hroot]

/-! ## Page directories -/

/-- A directory of the pages root holds a page fragment. -/
def holdsPage (site : Site) (d : Disk) (name : Text) : Bool :=
  decide ((d.isDirectory (site.pagesRoot.child name)).toOption = some true) &&
    decide ((d.isFile ((site.pagesRoot.child name).join site.pageFile)).toOption = some true)

/-- The directories of the pages root that hold a page fragment, in the order of their names; none where there is no
pages root. -/
def pageDirectories (site : Site) (d : Disk) : List Text :=
  ((d.list site.pagesRoot).toOption.getD []).filter (holdsPage site d)

/-- No name on the way to a page is longer than a file system allows. -/
structure Searchable (site : Site) (d : Disk) : Prop where
  root : site.pagesRoot.Short
  file : (Path.ofText site.pageFile).Short
  script : (Path.ofText site.pageScript).Short
  names : ∀ item ∈ d.tree, ∀ name ∈ item.1, Utf8.size name ≤ FileTree.nameLimit

theorem short_join {p : Path} {s : Text} (hp : p.Short) (hs : (Path.ofText s).Short) : (p.join s).Short := by
  unfold Path.join Path.append
  split
  · exact fun part hpart => (List.mem_append.1 hpart).elim (hp part) (hs part)
  · exact hs

theorem Searchable.child (h : Searchable site d) {listed : List Text} (hlist : d.list site.pagesRoot = .ok listed)
    (hname : name ∈ listed) : (site.pagesRoot.child name).Short := by
  unfold Disk.list at hlist
  split at hlist
  · rename_i loc hplace
    cases hlist
    obtain ⟨e, he⟩ := FileTree.mem_names.1 ((List.mergeSort_perm _ _).mem_iff.1 hname)
    intro part hpart
    rcases List.mem_append.1 hpart with hpart | hpart
    · exact h.root part hpart
    · rw [List.mem_singleton.1 hpart]
      exact h.names _ (FileTree.entryAt_mem he) name (List.mem_append_right _ (List.mem_singleton_self _))
  all_goals cases hlist

/-- The page that a directory holds; whether it has a script is seen on the disk. -/
def pageOn (site : Site) (d : Disk) (name : Text) : Page :=
  let script := (site.pagesRoot.join name).join site.pageScript
  ⟨routeOf site name, name, (site.pagesRoot.join name).join site.pageFile,
    if (d.isFile script).toOption = some true then some script else none⟩

section

variable (h : Searchable site d) {listed : List Text} (hsound : FileTree.Sound d.tree)
  (hlist : d.list site.pagesRoot = .ok listed) (hname : name ∈ listed)
include h hlist hname

theorem outcome_isPageDirectory (l : Log) :
    outcome (isPageDirectory site name) d l = (.ok (holdsPage site d name), l) := by
  obtain ⟨dir, hdir⟩ : ∃ b, d.isDirectory (site.pagesRoot.child name) = .ok b := by
    obtain ⟨r, hr⟩ := Disk.look_ok_of_short (d := d) (h.child hlist hname)
    exact ⟨_, by rw [Disk.isDirectory, hr]; rfl⟩
  obtain ⟨file, hfile⟩ := Disk.isFile_ok_of_short (d := d) (short_join (h.child hlist hname) h.file)
  unfold isPageDirectory holdsPage
  simp only
  rw [← Path.child, outcome_bind, outcome_ask, hdir, hfile]
  cases dir with
  | false => rfl
  | true =>
    simp only [Except.mapError, if_true]
    rw [outcome_ask, hfile]
    cases file <;> rfl

include hsound

theorem outcome_make_listed (l : Log) : outcome (make site name) d l = (.ok (pageOn site d name), l) := by
  have hplain := Disk.plain_of_list hsound hlist name hname
  have hshort : ((site.pagesRoot.join name).join site.pageScript).Short := by
    rw [hplain.join_eq]
    exact short_join (h.child hlist hname) h.script
  obtain ⟨there, hthere⟩ := Disk.isFile_ok_of_short (d := d) hshort
  rw [outcome_make, madeOn, pageOn, hthere]
  cases there <;> rfl

theorem outcome_makeIfPage (l : Log) :
    outcome (do if ← isPageDirectory site name then return some (← make site name) else return none) d l =
      (.ok (if holdsPage site d name then some (pageOn site d name) else none), l) := by
  rw [outcome_bind, outcome_isPageDirectory h hlist hname]
  cases holdsPage site d name with
  | false => rfl
  | true =>
    simp only [if_true]
    rw [outcome_bind, outcome_make_listed h hsound hlist hname]
    rfl

end

/-- The registry holds the pages of the page directories, given one after the other. -/
theorem outcome_discover (h : Searchable site d) (hsound : FileTree.Sound d.tree) (l : Log) :
    (outcome (discover site) d l).1 =
      .ok (Keyed.ofList ((pageDirectories site d).map fun name => (routeOf site name, pageOn site d name))) := by
  obtain ⟨there, hthere⟩ : ∃ b, d.isDirectory site.pagesRoot = .ok b := by
    obtain ⟨r, hr⟩ := Disk.look_ok_of_short (d := d) h.root
    exact ⟨_, by rw [Disk.isDirectory, hr]; rfl⟩
  unfold discover
  simp only
  rw [outcome_bind, outcome_ask, hthere]
  cases there with
  | false =>
    have hnone : (d.list site.pagesRoot).toOption = none := by
      cases hlist : d.list site.pagesRoot with
      | error e => rfl
      | ok listed =>
        rw [Disk.isDirectory_of_list hlist] at hthere
        cases hthere
    rw [pageDirectories, hnone]
    rfl
  | true =>
    obtain ⟨loc, hplace⟩ := Disk.isDirectory_eq_true.1 hthere
    have hlist : d.list site.pagesRoot = .ok (Text.sorted (FileTree.names loc d.tree)) := by rw [Disk.list, hplace]
    simp only [Except.mapError, if_true]
    rw [outcome_bind, outcome_ask, hlist]
    simp only [Except.mapError]
    rw [outcome_bind, Reading.outcome_filterMapM_ok fun name hname => outcome_makeIfPage h hsound hlist hname,
      pageDirectories, hlist]
    have hfound : ∀ listed : List Text,
        (listed.filterMap fun name => if holdsPage site d name then some (pageOn site d name) else none) =
          (listed.filter (holdsPage site d)).map (pageOn site d) := by
      intro listed
      rw [← List.filterMap_eq_map, List.filterMap_filter]
      rfl
    simp only [Except.toOption, Option.getD_some, Reading.outcome_pure, hfound, List.map_map]
    rfl

theorem nodup_pageDirectories (hsound : FileTree.Sound d.tree) : (pageDirectories site d).Nodup := by
  unfold pageDirectories
  refine List.Nodup.filter _ ?_
  unfold Disk.list
  split
  · exact (List.mergeSort_perm _ _).nodup_iff.2 (FileTree.Once.nodup_names hsound.once _)
  all_goals exact List.nodup_nil

/-! ## The registry -/

/-- The registry has an entry for every page directory, and the routes of page directories are distinct, unless both the
home page and a directory named like the root route hold a page. Each entry stands under the route of a page directory,
and the route of a page directory leads back to it unless it is named like the root route. -/
theorem discover_complete_iff (site : Site) (d : Disk) (l : Log) (hsound : FileTree.Sound d.tree)
    (hsearch : Searchable site d) (hne : site.homePage ≠ site.rootRoute) :
    ∃ pages, (outcome (discover site) d l).1 = .ok pages ∧
      (pages.length = (pageDirectories site d).length ↔
        ¬ (site.homePage ∈ pageDirectories site d ∧ site.rootRoute ∈ pageDirectories site d)) ∧
      (Set.InjOn (routeOf site) {name | name ∈ pageDirectories site d} ↔
        ¬ (site.homePage ∈ pageDirectories site d ∧ site.rootRoute ∈ pageDirectories site d)) ∧
      (∀ item ∈ pages, item.1 = routeOf site item.2.name ∧ item.2.name ∈ pageDirectories site d) ∧
      ∀ name ∈ pageDirectories site d, routeOf site name ∈ Keyed.keys pages ∧
        (nameOf site (routeOf site name) = name ↔ name ≠ site.rootRoute) := by
  have hnodup : (pageDirectories site d).Nodup := nodup_pageDirectories hsound
  refine ⟨_, outcome_discover hsearch hsound l, ?_, ?_, fun item hitem => ?_,
    fun name hname => ⟨?_, nameOf_routeOf_iff hne⟩⟩
  · have hcount := Keyed.length_ofList_eq_iff
      ((pageDirectories site d).map fun name => (routeOf site name, pageOn site d name))
    rw [List.length_map, List.map_map] at hcount
    exact hcount.trans (nodup_map_routeOf_iff hne hnodup)
  · rw [← nodup_map_routeOf_iff hne hnodup, List.nodup_map_iff_inj_on hnodup]
    exact ⟨fun h a ha b hb hab => h ha hb hab, fun h a ha b hb hab => h a ha b hb hab⟩
  · obtain ⟨name, hname, rfl⟩ := List.mem_map.1 ((Keyed.ofList_spec _).2 item hitem)
    exact ⟨rfl, hname⟩
  · exact Keyed.mem_keys_ofList.2 (List.mem_map.2 ⟨_, List.mem_map_of_mem hname, rfl⟩)

def pagesDisk (names : List Text) : Disk where
  tree :=
    let pages : Location := ["project".toList, "src".toList, "app".toList]
    [([], .directory), (["project".toList], .directory), (["project".toList, "src".toList], .directory),
      (pages, .directory)] ++ names.flatMap fun name =>
        [(pages ++ [name], .directory), (pages ++ [name, "page.html".toList], .file [] (.seconds 0))]
  here := []
  clock := 0

def pagesSite : Site := .usual ⟨.root, ["project".toList]⟩

/-- With pages in `home` and `blog` both are registered, each under a route that leads back to it. -/
theorem discover_complete_blog :
    ∃ pages, (outcome (discover pagesSite) (pagesDisk ["blog".toList, "home".toList]) []).1 = .ok pages ∧
      pages.length = 2 ∧ nameOf pagesSite (routeOf pagesSite "blog".toList) = "blog".toList ∧
      nameOf pagesSite (routeOf pagesSite "home".toList) = "home".toList := by
  have hsearch : Searchable pagesSite (pagesDisk ["blog".toList, "home".toList]) :=
    ⟨Path.short_of_all (by decide), Path.short_of_all (by decide), Path.short_of_all (by decide), by decide⟩
  have hdirs : pageDirectories pagesSite (pagesDisk ["blog".toList, "home".toList]) =
      ["blog".toList, "home".toList] := by
    cbv
  obtain ⟨pages, hpages, hcount, -, -, hback⟩ := discover_complete_iff pagesSite
    (pagesDisk ["blog".toList, "home".toList]) [] (by decide) hsearch (by decide)
  rw [hdirs] at hcount hback
  exact ⟨pages, hpages, hcount.2 (by decide), (hback _ (by decide)).2.2 (by decide),
    (hback _ (by decide)).2.2 (by decide)⟩

/-- With pages in `home` and `index` one of the two is lost, and the route of `index` leads to `home`. -/
theorem discover_loses_page :
    Path.FileName pagesSite.homePage ∧ Path.FileName pagesSite.rootRoute ∧ pagesSite.homePage ≠ pagesSite.rootRoute ∧
      FileTree.Sound (pagesDisk ["home".toList, "index".toList]).tree ∧
      pageDirectories pagesSite (pagesDisk ["home".toList, "index".toList]) = ["home".toList, "index".toList] ∧
      (∃ page, (outcome (discover pagesSite) (pagesDisk ["home".toList, "index".toList]) []).1 =
        .ok [("index".toList, page)] ∧ page.name = "index".toList) ∧
      nameOf pagesSite (routeOf pagesSite "index".toList) = "home".toList := by
  have hdirs : pageDirectories pagesSite (pagesDisk ["home".toList, "index".toList]) =
      ["home".toList, "index".toList] := by
    cbv
  have hpages : (outcome (discover pagesSite) (pagesDisk ["home".toList, "index".toList]) []).1 =
      .ok [("index".toList, pageOn pagesSite (pagesDisk ["home".toList, "index".toList]) "index".toList)] := by
    cbv
  exact ⟨by decide, by decide, by decide, by decide, hdirs, ⟨_, hpages, rfl⟩, by decide⟩

end Page
end Sitewright
