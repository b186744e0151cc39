import Sitewright.Proofs.File.Frame
import Sitewright.Proofs.Text.Splitting
/-!
# How paths are spelt

A site names its files by texts, which may hold slashes and double dots. Whatever the text, the location that
an absolute path resolves to holds no double dots, and holds plain names where the path can be looked at.

Main statements: `straight_resolve` and `plainNames_resolve`.
-/
set_option autoImplicit false

namespace Sitewright

namespace Path

/-! ## Names of files -/

variable {name tail : Text} {p q : Path} {here dir : Location}

/-- A name with two or more characters behind it is a name. -/
theorem FileName.append (h : FileName name) (hlen : 2 ≤ tail.length) (hslash : '/' ∉ tail) :
    FileName (name ++ tail) := by
  have hpos : 1 ≤ name.length := List.length_pos_iff.2 h.nonempty
  have hlong : 3 ≤ (name ++ tail).length := by
    rw [List.length_append]
    omega
  refine ⟨?_, ?_, ?_, fun hc => (List.mem_append.1 hc).elim h.noSlash hslash⟩
  · intro hc
    rw [hc] at hlong
    simp at hlong
  · intro hc
    rw [hc] at hlong
    simp at hlong
  · intro hc
    rw [hc] at hlong
    simp at hlong

theorem hasNul_child (p : Path) (name : Text) : (p.child name).hasNul = (p.hasNul || List.elem '\x00' name) := by
  simp only [hasNul, child, List.any_append, List.any_cons, List.any_nil, Bool.or_false]

/-! ## Double dots -/

theorem follow_straight {parts : List Text} (hdir : ['.', '.'] ∉ dir) : ['.', '.'] ∉ follow dir parts := by
  induction parts generalizing dir with
  | nil => exact hdir
  | cons part rest ih =>
    rw [follow]
    split
    · apply ih
      exact fun hc => hdir (List.dropLast_subset _ hc)
    · rename_i hne
      apply ih
      rw [List.mem_append, List.mem_singleton, not_or]
      exact ⟨hdir, fun hc => hne hc.symm⟩

theorem resolve_absolute (h : p.anchor ≠ .here) : p.resolve here = follow [] p.parts := by
  cases hanchor : p.anchor with
  | here => exact absurd hanchor h
  | root => rw [resolve, hanchor]
  | doubleRoot => rw [resolve, hanchor]

/-- An absolute path resolves to a location without double dots. -/
theorem straight_resolve (h : p.anchor ≠ .here) : ['.', '.'] ∉ p.resolve here := by
  rw [resolve_absolute h]
  exact follow_straight List.not_mem_nil

theorem resolve_ofLocation {loc : Location} (h : ['.', '.'] ∉ loc) : (ofLocation loc).resolve here = loc := by
  have hfollow : follow [] loc = [] ++ loc := follow_of_not_mem h
  exact hfollow

theorem resolve_plain {loc : Location} (h : PlainNames loc) : (ofLocation loc).resolve here = loc :=
  resolve_ofLocation h.straight

theorem follow_append (dir : Location) (front rest : List Text) :
    follow dir (front ++ rest) = follow (follow dir front) rest := by
  induction front generalizing dir with
  | nil => rfl
  | cons part front ih =>
    rw [List.cons_append, follow, follow]
    split <;> exact ih _

theorem follow_concat (dir : Location) (front : List Text) {name : Text} (h : name ≠ ['.', '.']) :
    follow dir (front ++ [name]) = follow dir front ++ [name] := by
  rw [follow_append, follow, if_neg h, follow]

theorem resolve_join {name : Text} (h : FileName name) (p : Path) :
    (p.join name).resolve here = p.resolve here ++ [name] := by
  rw [h.join_eq, child]
  unfold resolve
  cases p.anchor <;> exact follow_concat _ _ h.not_dots

theorem exists_resolve_eq (hname : p.name ≠ []) (hdots : p.name ≠ ['.', '.']) (here : Location) :
    ∃ dir, p.resolve here = dir ++ [p.name] := by
  rcases List.eq_nil_or_concat' p.parts with hnil | ⟨front, last, hlast⟩
  · rw [name, hnil] at hname
    exact absurd rfl hname
  · have hsame : p.name = last := by simp [name, hlast]
    rw [hsame] at hdots ⊢
    unfold resolve
    rw [hlast]
    cases p.anchor <;> exact ⟨_, follow_concat _ front hdots⟩

theorem anchor_append (h : p.anchor ≠ .here) (q : Path) : (p.append q).anchor ≠ .here := by
  unfold append
  split
  · exact h
  · rename_i hq
    exact hq

theorem anchor_join (h : p.anchor ≠ .here) (s : Text) : (p.join s).anchor ≠ .here := anchor_append h _

/-! ## Spelt paths -/

/-- No part of the path is empty, a single dot, or holds a slash, as in a path that has been read. -/
def Spelt (p : Path) : Prop := ∀ part ∈ p.parts, isPart part = true ∧ '/' ∉ part

theorem mem_partsOf {s part : Text} (h : part ∈ partsOf s) : ∀ c ∈ part, c ∈ s ∧ c ≠ '/' :=
  Text.forall_mem_splitFrom (fun _ ht => absurd ht List.not_mem_nil) (fun _ hc => absurd hc List.not_mem_nil)
    (fun _ hc hne => ⟨hc, hne⟩) part (List.mem_filter.1 h).1

theorem spelt_ofText (s : Text) : (ofText s).Spelt := by
  intro part hpart
  exact ⟨isPart_of_mem_ofText hpart, fun hslash => (mem_partsOf hpart _ hslash).2 rfl⟩

theorem Spelt.append (hp : p.Spelt) (hq : q.Spelt) : (p.append q).Spelt := by
  unfold Path.append
  split
  · intro part hpart
    exact (List.mem_append.1 hpart).elim (hp part) (hq part)
  · exact hq

theorem Spelt.join (hp : p.Spelt) (s : Text) : (p.join s).Spelt := hp.append (spelt_ofText s)

theorem mem_follow {parts : List Text} {name : Text} (h : name ∈ follow dir parts) :
    name ∈ dir ∨ name ∈ parts ∧ name ≠ ['.', '.'] := by
  induction parts generalizing dir with
  | nil => exact .inl h
  | cons part rest ih =>
    rw [follow] at h
    split at h
    · rcases ih h with hdir | ⟨hrest, hne⟩
      · exact .inl (List.dropLast_subset _ hdir)
      · exact .inr ⟨List.mem_cons_of_mem _ hrest, hne⟩
    · rename_i hdots
      rcases ih h with hdir | ⟨hrest, hne⟩
      · rcases List.mem_append.1 hdir with hdir | hpart
        · exact .inl hdir
        · rw [List.mem_singleton.1 hpart]
          exact .inr ⟨List.mem_cons_self, hdots⟩
      · exact .inr ⟨List.mem_cons_of_mem _ hrest, hne⟩

/-- What an absolute path resolves to is spelt in plain names, unless the path cannot be looked at. -/
theorem plainNames_resolve (habsolute : p.anchor ≠ .here) (hspelt : p.Spelt) (hnul : ¬ p.hasNul = true) :
    PlainNames (p.resolve here) := by
  intro name hname
  rw [resolve_absolute habsolute] at hname
  obtain ⟨hpart, hdots⟩ := (mem_follow hname).resolve_left List.not_mem_nil
  obtain ⟨hisPart, hslash⟩ := hspelt name hpart
  simp only [isPart, Bool.and_eq_true, Bool.not_eq_true', List.isEmpty_eq_false_iff, bne_iff_ne] at hisPart
  refine ⟨hisPart.1, hisPart.2, hdots, hslash, fun hc => hnul ?_⟩
  exact hasNul_iff.2 ⟨name, hpart, hc⟩

end Path
end Sitewright
