import Sitewright.Build.Run
import Sitewright.Proofs.Keyed
import Sitewright.Proofs.Outcome
import Sitewright.Proofs.File.Frame
/-!
# The pages that are found

A page is found where a directory of the pages root holds a fragment. Pages stand under distinct routes, each
under that of its directory.

Main statements: `mem_discover`, and `outcome_discover_congr`: disks on which the same directories are listed
and the same files stand have the same pages.
-/
set_option autoImplicit false

namespace Sitewright

namespace Page

open Reading (outcome outcome_ask outcome_bind_congr outcome_ask_congr exists_of_bind_ok mapError_eq_ok)

variable {site : Site} {d d' : Disk}

/-- A page that stands on a disk: its directory is listed and holds a fragment, and its script is there. -/
structure Found (site : Site) (d : Disk) (p : Page) : Prop where
  listed : ∃ names, d.list site.pagesRoot = .ok names ∧ p.name ∈ names
  route : p.route = routeOf site p.name
  fragment : p.fragment = (site.pagesRoot.join p.name).join site.pageFile
  script : ∀ path ∈ p.script,
    path = (site.pagesRoot.join p.name).join site.pageScript ∧ d.isFile path = .ok true

def madeOn (site : Site) (d : Disk) (name : Text) : Except Failure Page :=
  ((d.isFile ((site.pagesRoot.join name).join site.pageScript)).mapError .file).map fun there =>
    ⟨routeOf site name, name, (site.pagesRoot.join name).join site.pageFile,
      if there then some ((site.pagesRoot.join name).join site.pageScript) else none⟩

theorem outcome_make (site : Site) (name : Text) (d : Disk) (l : Log) :
    outcome (make site name) d l = (madeOn site d name, l) := by
  unfold make madeOn
  simp only
  rw [Reading.outcome_bind, outcome_ask]
  cases d.isFile ((site.pagesRoot.join name).join site.pageScript) <;> rfl

theorem of_madeOn {name : Text} {p : Page} (h : madeOn site d name = .ok p) :
    p.name = name ∧ p.route = routeOf site name ∧ p.fragment = (site.pagesRoot.join name).join site.pageFile ∧
      ∀ path ∈ p.script,
        path = (site.pagesRoot.join name).join site.pageScript ∧ d.isFile path = .ok true := by
  unfold madeOn at h
  cases hthere : d.isFile ((site.pagesRoot.join name).join site.pageScript) with
  | error e =>
    rw [hthere] at h
    cases h
  | ok there =>
    rw [hthere] at h
    cases h
    refine ⟨rfl, rfl, rfl, fun path hpath => ?_⟩
    cases there with
    | false => cases hpath
    | true =>
      cases hpath
      exact ⟨rfl, hthere⟩

/-- The pages that are found have distinct routes, and each is what a listed name gives. -/
theorem made_of_discover {l : Log} {pages : Keyed Page} (h : (outcome (discover site) d l).1 = .ok pages) :
    (Keyed.keys pages).Nodup ∧ ∀ item ∈ pages, item.1 = item.2.route ∧
      madeOn site d item.2.name = .ok item.2 ∧ ∃ names, d.list site.pagesRoot = .ok names ∧ item.2.name ∈ names := by
  unfold discover at h
  simp only at h
  obtain ⟨there, l₁, _, h⟩ := exists_of_bind_ok h
  cases there with
  | false =>
    simp only [Bool.false_eq_true, if_false] at h
    obtain ⟨_, l₂, _, h⟩ := exists_of_bind_ok h
    cases h
    exact ⟨List.nodup_nil, fun item hitem => absurd hitem List.not_mem_nil⟩
  | true =>
    simp only [if_true] at h
    obtain ⟨names, l₂, hnames, h⟩ := exists_of_bind_ok h
    obtain ⟨found, l₃, hfound, h⟩ := exists_of_bind_ok h
    cases h
    rw [outcome_ask] at hnames
    have hlist := mapError_eq_ok (congrArg Prod.fst hnames)
    obtain ⟨hnodup, hmem⟩ := Keyed.ofList_spec (found.map fun p => (p.route, p))
    refine ⟨hnodup, fun item hitem => ?_⟩
    obtain ⟨p, hp, rfl⟩ := List.mem_map.1 (hmem item hitem)
    refine ⟨rfl, ?_⟩
    obtain ⟨name, hname, l₄, hmade⟩ := Reading.mem_of_filterMapM (congrArg Prod.fst hfound) p hp
    obtain ⟨isPage, l₅, _, hmade⟩ := exists_of_bind_ok hmade
    cases isPage with
    | false => cases hmade
    | true =>
      simp only [if_true] at hmade
      obtain ⟨q, l₆, hq, hmade⟩ := exists_of_bind_ok hmade
      cases hmade
      rw [outcome_make] at hq
      have hq := congrArg Prod.fst hq
      obtain rfl := (of_madeOn hq).1
      exact ⟨hq, names, hlist, hname⟩

/-- The pages that are found have distinct routes, and each is found on the disk. -/
theorem mem_discover {l : Log} {pages : Keyed Page} (h : (outcome (discover site) d l).1 = .ok pages) :
    (Keyed.keys pages).Nodup ∧ ∀ item ∈ pages, item.1 = item.2.route ∧ Found site d item.2 := by
  obtain ⟨hnodup, hmade⟩ := made_of_discover h
  refine ⟨hnodup, fun item hitem => ?_⟩
  obtain ⟨hroute, hmade, hlisted⟩ := hmade item hitem
  obtain ⟨-, hr, hfragment, hscript⟩ := of_madeOn hmade
  exact ⟨hroute, hlisted, hr, hfragment, hscript⟩

theorem outcome_make_congr {name : Text}
    (h : d'.isFile ((site.pagesRoot.join name).join site.pageScript) =
      d.isFile ((site.pagesRoot.join name).join site.pageScript)) (l : Log) :
    outcome (make site name) d' l = outcome (make site name) d l := by
  refine outcome_bind_congr (outcome_ask_congr h) ?_ l
  exact fun _ _ _ => rfl

theorem outcome_isPageDirectory_congr {name : Text}
    (hdir : d'.isDirectory (site.pagesRoot.child name) = d.isDirectory (site.pagesRoot.child name))
    (hfile : d'.isFile ((site.pagesRoot.child name).join site.pageFile) =
      d.isFile ((site.pagesRoot.child name).join site.pageFile)) (l : Log) :
    outcome (isPageDirectory site name) d' l = outcome (isPageDirectory site name) d l := by
  refine outcome_bind_congr (outcome_ask_congr hdir) (fun there _ l => ?_) l
  cases there with
  | false => rfl
  | true => exact outcome_ask_congr hfile l

/-- The pages are those of the directories that are listed, as far as these and their files are there. -/
theorem outcome_discover_congr (hroot : d'.isDirectory site.pagesRoot = d.isDirectory site.pagesRoot)
    (hlist : d'.list site.pagesRoot = d.list site.pagesRoot)
    (hnames : ∀ names, d.list site.pagesRoot = .ok names → ∀ name ∈ names,
      d'.isDirectory (site.pagesRoot.child name) = d.isDirectory (site.pagesRoot.child name) ∧
        d'.isFile ((site.pagesRoot.child name).join site.pageFile) =
          d.isFile ((site.pagesRoot.child name).join site.pageFile) ∧
        d'.isFile ((site.pagesRoot.join name).join site.pageScript) =
          d.isFile ((site.pagesRoot.join name).join site.pageScript)) (l : Log) :
    outcome (discover site) d' l = outcome (discover site) d l := by
  unfold discover
  simp only
  refine outcome_bind_congr (outcome_ask_congr hroot) (fun there _ l => ?_) l
  cases there with
  | false => rfl
  | true =>
    refine outcome_bind_congr (outcome_ask_congr hlist) (fun names hlisted l => ?_) l
    obtain ⟨l₁, l₂, hlisted⟩ := hlisted
    rw [outcome_ask] at hlisted
    have hsame := hnames names (mapError_eq_ok (congrArg Prod.fst hlisted))
    have hfound : ∀ l, outcome (names.filterMapM fun name => do
        if ← isPageDirectory site name then return some (← make site name) else return none) d' l =
        outcome (names.filterMapM fun name => do
          if ← isPageDirectory site name then return some (← make site name) else return none) d l := by
      refine fun l => Reading.outcome_filterMapM_congr (fun name hname l => ?_) l
      obtain ⟨hdir, hfile, hscript⟩ := hsame name hname
      refine outcome_bind_congr (outcome_isPageDirectory_congr hdir hfile) (fun isPage _ l => ?_) l
      cases isPage with
      | false => rfl
      | true =>
        refine outcome_bind_congr (outcome_make_congr hscript) ?_ l
        exact fun _ _ _ => rfl
    refine outcome_bind_congr hfound ?_ l
    exact fun _ _ _ => rfl

end Page

namespace Build

/-- The pages that a build finds; none where it cannot look for them. -/
def pagesFound (site : Site) (w : Workspace) : Keyed Page :=
  ((Page.discover site).outcome w.disk w.log).1.toOption.getD []

theorem mem_pagesFound {site : Site} {w : Workspace} {item : Text × Page} (h : item ∈ pagesFound site w) :
    item.1 = item.2.route ∧ Page.Found site w.disk item.2 := by
  unfold pagesFound at h
  cases hfound : ((Page.discover site).outcome w.disk w.log).1 with
  | error e =>
    rw [hfound] at h
    exact absurd h List.not_mem_nil
  | ok pages =>
    rw [hfound] at h
    exact (Page.mem_discover hfound).2 item h

theorem nodup_keys_pagesFound (site : Site) (w : Workspace) : (Keyed.keys (pagesFound site w)).Nodup := by
  unfold pagesFound
  cases hfound : ((Page.discover site).outcome w.disk w.log).1 with
  | error e => exact List.nodup_nil
  | ok pages => exact (Page.mem_discover hfound).1

end Build
end Sitewright
