import Sitewright.Proofs.Build.Stages
import Sitewright.Proofs.File.Persistence
import Sitewright.Proofs.File.Spelling
/-!
# What a build never removes

A build removes three directories: the output directory, when it begins, and the two temporary ones, when it
ends. The first is refused where it holds the project. The other two are removed unasked, so the project is
safe as long as neither of them leads to its root or to a directory above that.

Main statements: `run_keeps_root`, and `run_removes_root` on a temporary directory with the empty name.
-/
set_option autoImplicit false

namespace Sitewright.Build

open FileTree (entryAt isBelow)
open Disk (Retains)
open Job (outcome Keeps)

/-- The directories up to a location that stood on a disk stand on another one. -/
def Stands (home : Location) (d d' : Disk) : Prop := Retains (fun l => ¬ l <+: home) d d'

variable {site : Site} {d : Disk} {home : Location}

theorem Stands.step {d' d'' : Disk} (h : Stands home d d') (hstep : Retains Nowhere d' d'') :
    Stands home d d'' := by
  refine h.trans (hstep.mono fun l hl => ?_)
  exact hl.elim

theorem Stands.removeTree {d' : Disk} (h : Stands home d d') {p : Path}
    (hp : ¬ p.resolve d'.here <+: home) : Stands home d (d'.removeTree p).1 := by
  refine h.trans ((Disk.retains_removeTree d' p).mono fun l hbelow hl => ?_)
  exact hp (hbelow.trans hl)

theorem keeps_stands_writeBytes (p : Path) (bytes : Bytes) :
    Keeps (Stands home d) (Job.change (·.writeBytes p bytes)) :=
  Keeps.change fun _ _ hwrite h => h.step (Disk.retains_writeBytes hwrite)

theorem keeps_stands_writeText (p : Path) (s : Text) : Keeps (Stands home d) (Job.writeText p s) :=
  keeps_stands_writeBytes p _

theorem keeps_stands_ensureDirectories (p : Path) :
    Keeps (Stands home d) (Job.changeBySteps (·.ensureDirectories p)) :=
  Keeps.changeBySteps fun d' h => h.step (Disk.retains_ensureDirectories d' p)

theorem keeps_stands_removeTree {p : Path} (hp : ¬ p.resolve d.here <+: home) :
    Keeps (Stands home d) (Job.changeBySteps (·.removeTree p)) := by
  refine Keeps.changeBySteps fun d' h => h.removeTree ?_
  rw [h.here]
  exact hp

/-- Of all steps of a build only the removals need a condition. -/
theorem steps_stands {routes : List Text}
    (hroots : ∀ p ∈ [site.bundledRoot, site.tmpRoot], ¬ p.resolve d.here <+: home) :
    Steps site routes (Disk.Twin (Stands home d)) where
  answers := by
    rintro d' _ ⟨rfl, _⟩
    exact .refl d'
  make p _ := (keeps_stands_ensureDirectories p).couples
  remove p hp := (keeps_stands_removeTree (hroots p hp)).couples
  merge := by
    rintro d' _ ⟨rfl, h⟩
    exact ⟨rfl, rfl, h.step (Disk.retains_copyTree d' _ _)⟩
  style := (Keeps.change fun _ _ hcopy h => h.step (Disk.retains_copyBytes hcopy)).couples
  asset address bytes := (keeps_stands_writeBytes _ bytes).couples
  bundled route _ s := (keeps_stands_writeText _ s).couples
  publish _ _ _ _ _ name _ _ s := (keeps_stands_writeText _ s).couples

theorem keeps_stands_emptyOutput (habsolute : site.root.anchor ≠ .here) :
    Keeps (Stands (site.root.resolve d.here) d) (emptyOutput site) := by
  have hout : ['.', '.'] ∉ site.outRoot.resolve d.here :=
    Path.straight_resolve (Path.anchor_join habsolute site.outDir)
  refine keeps_emptyOutput fun d' _ hholds h => h.removeTree ?_
  rw [h.here] at hholds ⊢
  rw [Path.resolve_ofLocation hout]
  exact fun hc => hholds (FileTree.isBelow_iff.2 hc)

/-- However a build by copying ends, every directory from the root of the file system down to the root of
the project that was there is there, provided that the temporary directory and the directory of bundled
pages, their dots resolved, are neither the root of the project nor above it. -/
theorem run_keeps_root (bundlers : Bundlers) (site : Site) (given : Option Variables)
    (bundler : Option Bundler) (w : Workspace) (habsolute : site.root.anchor ≠ .here)
    (hcopy : Selects bundlers site bundler copyBundler)
    (hroots : ∀ p ∈ [site.bundledRoot, site.tmpRoot],
      ¬ holds (p.resolve w.disk.here) (site.root.resolve w.disk.here) = true)
    {loc : Location} (hloc : loc <+: site.root.resolve w.disk.here)
    (hdir : entryAt loc w.disk.tree = some .directory) :
    entryAt loc (outcome (run bundlers site given bundler) w).2.disk.tree = some .directory := by
  have hbeside : ∀ p ∈ [site.bundledRoot, site.tmpRoot],
      ¬ p.resolve w.disk.here <+: site.root.resolve w.disk.here := by
    intro p hp hc
    exact hroots p hp (FileTree.isBelow_iff.2 hc)
  have hprepare : Keeps (Stands (site.root.resolve w.disk.here) w.disk) (prepare bundlers site given bundler) :=
    keeps_prepare (keeps_stands_emptyOutput habsolute)
  have hprepared := hprepare w (Retains.refl _ w.disk)
  have hend : Stands (site.root.resolve w.disk.here) w.disk
      (outcome (run bundlers site given bundler) w).2.disk := by
    rw [outcome_run]
    rcases hrun : outcome (prepare bundlers site given bundler) w with ⟨e | ⟨tree, b⟩, w₁⟩
    · rw [hrun] at hprepared
      exact hprepared
    · rw [hrun] at hprepared
      have hb : b = copyBundler := hcopy.eq_of_prepare hrun
      subst hb
      refine disk_runStages tree hprepared (keeps_stands_ensureDirectories _) (fun item _ => ?_)
        (steps_stands hbeside)
      exact ⟨fun path _ s => keeps_stands_writeText path s, fun s => keeps_stands_writeText _ s⟩
  exact hend.directory loc (not_not_intro hloc) hdir

/-! ## Two builds of an empty project -/

/-- A project whose output directory holds pages of an earlier build. -/
def builtProject : Workspace :=
  ⟨{ tree := [([], .directory), (["project".toList], .directory), (["project".toList, "dist".toList], .directory),
      (["project".toList, "dist".toList, "index.html".toList], .file [] (.seconds 0))],
     here := ["project".toList], clock := 0 }, []⟩

/-- An output directory written with double dots is emptied, and the root stays. -/
theorem run_keeps_root_detour :
    let site := { emptySite with outDir := "src/../dist".toList, tmpDir := "./dist/../pages/".toList }
    entryAt ["project".toList, "dist".toList, "index.html".toList] builtProject.disk.tree ≠ none ∧
      entryAt ["project".toList, "dist".toList, "index.html".toList]
        (outcome (run [] site (some []) (some copyBundler)) builtProject).2.disk.tree = none ∧
      entryAt ["project".toList]
        (outcome (run [] site (some []) (some copyBundler)) builtProject).2.disk.tree = some .directory := by
  refine ⟨by decide, by cbv, ?_⟩
  refine run_keeps_root [] _ (some []) (some copyBundler) builtProject (by decide) rfl ?_ (by decide) (by decide)
  decide

/-- A temporary directory with the empty name is the root of the project, which is removed with it. -/
theorem run_removes_root :
    let site := { emptySite with tmpDir := [] }
    site.root.anchor ≠ .here ∧ Selects [] site (some copyBundler) copyBundler ∧
      ["project".toList] <+: site.root.resolve emptyProject.disk.here ∧
      entryAt ["project".toList] emptyProject.disk.tree = some .directory ∧
      entryAt ["project".toList]
        (outcome (run [] site (some []) (some copyBundler)) emptyProject).2.disk.tree = none := by
  refine ⟨by decide, rfl, by decide, by decide, ?_⟩
  cbv

end Sitewright.Build
