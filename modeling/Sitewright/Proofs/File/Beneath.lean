import Sitewright.Proofs.File.Persistence
import Sitewright.Proofs.File.Spelling
/-!
# Work beneath some names of a directory

A directory stands, and work is done only at paths that begin with one of some names in it. Whatever the
operation and however it ends, nothing changes but what stands at or below those names. A path may hold a null
character; then no operation does anything.

Main statements: one lemma for each operation (`changes_writeBytes_beneath`, `changes_copyTree_beneath`), and
`changes_writeBytes_resolve` for a file whose path is not spelt plainly.
-/
set_option autoImplicit false

namespace Sitewright

open FileTree (entryAt)

/-- The locations at or below some names in a directory. -/
def Beneath (home : Location) (names : List Text) : Location → Prop := fun l => ∃ name ∈ names, home ++ [name] <+: l

/-- The path goes on from a directory with names of files, the first of which is one of some names. -/
def Path.LeadsBeneath (home : Location) (names : List Text) (p : Path) : Prop :=
  ∃ name ∈ names, ∃ rest, p = .ofLocation (home ++ name :: rest) ∧ ∀ part ∈ name :: rest, FileName part

variable {home loc : Location} {names : List Text} {p : Path} {S : Location → Prop} {d d' : Disk}

theorem spares_beneath (home : Location) (names : List Text) : Disk.Spares (Beneath home names) home := by
  rintro l hl ⟨name, _, hbelow⟩
  have hlen := (hbelow.trans hl).length_le
  simp at hlen

theorem spares_beneath_of_not_mem {first : Text} (h : first ∉ names) (rest : List Text) :
    Disk.Spares (Beneath home names) (home ++ first :: rest) := by
  rintro l hl ⟨name, hname, hbelow⟩
  have hfront : [name] <+: first :: rest := (List.prefix_append_right_inj home).1 (hbelow.trans hl)
  rw [List.cons_prefix_cons] at hfront
  exact h (hfront.1 ▸ hname)

theorem Beneath.mono {names' : List Text} (h : Beneath home names loc) (hsub : ∀ name ∈ names, name ∈ names') :
    Beneath home names' loc := by
  obtain ⟨name, hname, hbelow⟩ := h
  exact ⟨name, hsub name hname, hbelow⟩

namespace Path

theorem LeadsBeneath.child (h : LeadsBeneath home names p) {name : Text} (hname : FileName name) :
    LeadsBeneath home names (p.child name) := by
  obtain ⟨first, hfirst, rest, rfl, hparts⟩ := h
  refine ⟨first, hfirst, rest ++ [name], by simp [Path.child, ofLocation], fun part hpart => ?_⟩
  rw [← List.cons_append] at hpart
  rcases List.mem_append.1 hpart with hpart | hpart
  · exact hparts part hpart
  · rw [List.mem_singleton.1 hpart]
    exact hname

theorem leadsBeneath_child {name : Text} (hmem : name ∈ names) (hname : FileName name) :
    LeadsBeneath home names ((ofLocation home).child name) := by
  refine ⟨name, hmem, [], rfl, fun part hpart => ?_⟩
  rw [List.mem_singleton.1 hpart]
  exact hname

theorem LeadsBeneath.mono {names' : List Text} (h : LeadsBeneath home names p) (hsub : ∀ name ∈ names, name ∈ names') :
    LeadsBeneath home names' p := by
  obtain ⟨first, hfirst, rest⟩ := h
  exact ⟨first, hsub first hfirst, rest⟩

theorem LeadsBeneath.cases (h : LeadsBeneath home names p) (hhome : PlainNames home) :
    p.hasNul = true ∨ ∃ loc, p = .ofLocation loc ∧ PlainNames loc ∧ ∃ name ∈ names, home ++ [name] <+: loc := by
  obtain ⟨name, hname, rest, rfl, hparts⟩ := h
  by_cases hnul : (ofLocation (home ++ name :: rest)).hasNul = true
  · exact .inl hnul
  · refine .inr ⟨home ++ name :: rest, rfl, fun part hpart => ?_, name, hname, rest, by simp⟩
    rcases List.mem_append.1 hpart with hpart' | hpart'
    · exact hhome part hpart'
    · refine (hparts part hpart').plainName fun hc => hnul ?_
      exact hasNul_iff.2 ⟨part, hpart, hc⟩

end Path

namespace Disk

/-! ## Paths with null characters -/

theorem writeBytes_of_hasNul (h : p.hasNul = true) (bytes : Bytes) : d.writeBytes p bytes = .error .nulByte := by
  rw [writeBytes, place_of_hasNul h]

theorem ensureDirectory_of_hasNul (h : p.hasNul = true) : d.ensureDirectory p = .error .nulByte := by
  rw [ensureDirectory, makeDirectory, place_of_hasNul h]

theorem ensureDirectories_of_hasNul (h : p.hasNul = true) : d.ensureDirectories p = (d, .error .nulByte) := by
  unfold ensureDirectories
  cases p.parts.length with
  | zero => rw [ensureDirectoriesTo, ensureDirectory_of_hasNul h]
  | succ depth => rw [ensureDirectoriesTo, makeDirectory, place_of_hasNul h, ensureDirectory_of_hasNul h]

theorem removeTree_of_hasNul (h : p.hasNul = true) : d.removeTree p = (d, .error .nulByte) := by
  rw [removeTree, place_of_hasNul h]

theorem copyTree_of_hasNul (source : Path) (h : p.hasNul = true) : (d.copyTree source p).1 = d := by
  unfold copyTree
  rw [copyTreeTo_succ, ensureDirectories_of_hasNul h]
  cases d.list source with
  | error e => rfl
  | ok names => rfl

/-! ## Operations -/

/-- A disk with a directory to work beneath. -/
structure Ground (home : Location) (d : Disk) : Prop where
  plain : PlainNames home
  sound : FileTree.Sound d.tree
  standing : d.isDirectory (.ofLocation home) = .ok true

theorem Ground.step (h : Ground home d) (hd : Changes (Beneath home names) S d d') : Ground home d' :=
  ⟨h.plain, hd.sound h.sound, hd.retains.isDirectory h.plain (spares_beneath home names) h.standing⟩

theorem changes_writeBytes_beneath (hhome : PlainNames home) (hp : p.LeadsBeneath home names) {bytes : Bytes}
    (h : d.writeBytes p bytes = .ok d') : Changes (Beneath home names) S d d' := by
  rcases hp.cases hhome with hnul | ⟨loc, rfl, hloc, hin⟩
  · rw [writeBytes_of_hasNul hnul] at h
    cases h
  · exact changes_writeBytes hloc hin h

theorem changes_copyBytes_beneath (hhome : PlainNames home) (hp : p.LeadsBeneath home names) {source : Path}
    (h : d.copyBytes source p = .ok d') : Changes (Beneath home names) S d d' := by
  obtain ⟨bytes, -, hwrite⟩ := exists_of_copyBytes h
  exact changes_writeBytes_beneath hhome hp hwrite

theorem beneath_of_between {l : Location} (hin : ∃ name ∈ names, home ++ [name] <+: loc)
    (h : home <+: l) (hne : l ≠ home) (hl : l <+: loc ∨ loc <+: l) : Beneath home names l := by
  obtain ⟨name, hname, hloc⟩ := hin
  refine ⟨name, hname, ?_⟩
  rcases hl with hl | hl
  · have hlen : home.length < l.length := by
      have hle := h.length_le
      have hdiff : home.length ≠ l.length := fun hc => hne (h.eq_of_length hc).symm
      omega
    refine List.prefix_of_prefix_length_le hloc hl ?_
    rw [List.length_append, List.length_singleton]
    omega
  · exact hloc.trans hl

theorem changes_ensureDirectories_beneath (h : Ground home d) (hp : p.LeadsBeneath home names) :
    Changes (Beneath home names) S d (d.ensureDirectories p).1 := by
  rcases hp.cases h.plain with hnul | ⟨loc, rfl, hloc, hin⟩
  · rw [ensureDirectories_of_hasNul hnul]
    exact .refl _ _ d
  · have habove : home <+: loc := by
      obtain ⟨name, _, hname⟩ := hin
      exact (List.prefix_append _ _).trans hname
    exact (changes_ensureDirectories hloc habove h.standing).widen fun l hl =>
      beneath_of_between hin hl.1 hl.2.1 (.inl hl.2.2)

theorem plain_of_ensureDirectories (hhome : PlainNames home) (hp : (Path.ofLocation loc).LeadsBeneath home names)
    (h : d.ensureDirectories (.ofLocation loc) = (d', .ok ())) : PlainNames loc := by
  rcases hp.cases hhome with hnul | ⟨loc', hsame, hplain, -⟩
  · rw [ensureDirectories_of_hasNul hnul] at h
    cases h
  · rw [show loc = loc' from congrArg Path.parts hsame]
    exact hplain

theorem Ground.ensureDirectories (h : Ground home d) (hp : p.LeadsBeneath home names)
    (hrun : d.ensureDirectories p = (d', .ok ())) : Ground home d' := by
  have hchange := changes_ensureDirectories_beneath (S := Nowhere) h hp
  rw [hrun] at hchange
  exact h.step hchange

theorem changes_removeTree_beneath (hhome : PlainNames home) (hp : p.LeadsBeneath home names) :
    Changes (Beneath home names) S d (d.removeTree p).1 := by
  rcases hp.cases hhome with hnul | ⟨loc, rfl, hloc, name, hname, hbelow⟩
  · rw [removeTree_of_hasNul hnul]
    exact .refl _ _ d
  · exact (changes_removeTree hloc).widen fun l hl => ⟨name, hname, hbelow.trans hl⟩

theorem changes_copyTree_beneath (h : Ground home d) (source : Path) (hp : p.LeadsBeneath home names) :
    Changes (Beneath home names) S d (d.copyTree source p).1 := by
  rcases hp.cases h.plain with hnul | ⟨loc, rfl, hloc, hin⟩
  · rw [copyTree_of_hasNul source hnul]
    exact .refl _ _ d
  · have habove : home <+: loc := by
      obtain ⟨name, _, hname⟩ := hin
      exact (List.prefix_append _ _).trans hname
    exact (changes_copyTree source hloc habove ⟨h.sound, h.standing⟩).widen fun l hl =>
      beneath_of_between hin hl.1 hl.2.1 hl.2.2

/-! ## Files elsewhere -/

/-- Writing a file changes what it holds, wherever its path leads. -/
theorem changes_writeBytes_resolve {T : Location → Prop} (habsolute : p.anchor ≠ .here) (hspelt : p.Spelt)
    (hS : S (p.resolve d.here)) {bytes : Bytes} (h : d.writeBytes p bytes = .ok d') : Changes T S d d' := by
  have hnul : ¬ p.hasNul = true := by
    intro hnul
    rw [writeBytes_of_hasNul hnul] at h
    cases h
  have hplain : PlainNames (p.resolve d.here) := Path.plainNames_resolve habsolute hspelt hnul
  obtain ⟨l, rfl, hplace⟩ := writeBytes_eq_store h
  rcases hplace with hp | ⟨old, stamp, hp⟩
  · obtain rfl : l = p.resolve d.here := location_place hp
    exact changes_putFile hplain (ne_directory_of_vacant hp) hS bytes _
  · obtain rfl : l = p.resolve d.here := location_place hp
    exact changes_putFile hplain (ne_directory_of_file hp) hS bytes _

end Disk
end Sitewright
