import Mathlib
import Sitewright.Keyed
/-!
# Entries of keyed lists

The value of a name is the first one that stands under it. Values that are given one after the other stand under
distinct names, and none is lost unless two are given for one name.

Main statements: `Keyed.get?_eq_some_iff`, `Keyed.ofList_spec`, `Keyed.length_ofList_eq_iff`.
-/
set_option autoImplicit false

namespace Sitewright.Keyed

variable {α : Type} {name : Text} {value : α} {entries : Keyed α}

/-! ## The value of a name -/

/-- The value of a name is the first one given under it. -/
theorem get?_eq_some_iff : get? name entries = some value ↔
    ∃ before after, entries = before ++ (name, value) :: after ∧ name ∉ keys before := by
  induction entries with
  | nil => simp [get?]
  | cons e rest ih =>
    obtain ⟨n, v⟩ := e
    rw [get?]
    split
    · rename_i hn
      subst hn
      constructor
      · intro h
        cases h
        exact ⟨[], rest, rfl, List.not_mem_nil⟩
      · rintro ⟨before, after, hsplit, hfirst⟩
        cases before with
        | nil =>
          cases hsplit
          rfl
        | cons b before =>
          cases hsplit
          exact absurd List.mem_cons_self hfirst
    · rename_i hn
      rw [ih]
      constructor
      · rintro ⟨before, after, rfl, hfirst⟩
        refine ⟨(n, v) :: before, after, rfl, ?_⟩
        exact List.not_mem_cons_of_ne_of_not_mem (fun h => hn h.symm) hfirst
      · rintro ⟨before, after, hsplit, hfirst⟩
        cases before with
        | nil =>
          cases hsplit
          exact absurd rfl hn
        | cons b before =>
          cases hsplit
          exact ⟨before, after, rfl, fun h => hfirst (List.mem_cons_of_mem _ h)⟩

theorem mem_of_get? (h : get? name entries = some value) : (name, value) ∈ entries := by
  obtain ⟨before, after, rfl, -⟩ := get?_eq_some_iff.1 h
  exact List.mem_append_right before List.mem_cons_self

theorem not_mem_keys_before {before after : Keyed α} (h : (keys (before ++ (name, value) :: after)).Nodup) :
    name ∉ keys before := by
  rw [keys, List.map_append, List.map_cons] at h
  exact fun hmem => (List.nodup_append.1 h).2.2 name hmem name List.mem_cons_self rfl

theorem get?_of_mem (hnodup : (keys entries).Nodup) (h : (name, value) ∈ entries) :
    get? name entries = some value := by
  obtain ⟨before, after, rfl⟩ := List.append_of_mem h
  exact get?_eq_some_iff.2 ⟨before, after, rfl, not_mem_keys_before hnodup⟩

/-! ## Values given one after the other -/

theorem mem_put {n : Text} {v : α} (h : (n, v) ∈ put name value entries) :
    (n = name ∧ v = value) ∨ (n, v) ∈ entries := by
  induction entries with
  | nil =>
    simp only [put, List.mem_singleton, Prod.mk.injEq] at h
    exact .inl h
  | cons e rest ih =>
    obtain ⟨n', v'⟩ := e
    rw [put] at h
    split at h
    · rename_i hn
      rcases List.mem_cons.1 h with h | h
      · cases h
        exact .inl ⟨hn, rfl⟩
      · exact .inr (List.mem_cons_of_mem _ h)
    · rcases List.mem_cons.1 h with h | h
      · exact .inr (h ▸ List.mem_cons_self)
      · exact (ih h).imp_right (List.mem_cons_of_mem _)

theorem nodup_keys_put (h : (keys entries).Nodup) :
    (keys (put name value entries)).Nodup := by
  rw [keys_put]
  split
  · exact h
  · rename_i hnew
    refine List.nodup_append.2 ⟨h, List.nodup_singleton name, fun a ha b hb => ?_⟩
    rw [List.mem_singleton] at hb
    exact fun hab => hnew (hb ▸ hab ▸ ha)

/-- Values given one after the other stand under distinct names, each under a name that it was given for. -/
theorem ofList_spec (given : List (Text × α)) :
    (keys (ofList given)).Nodup ∧ ∀ item ∈ ofList given, item ∈ given := by
  have hfold : ∀ entries : Keyed α, (keys entries).Nodup →
      (keys (given.foldl (fun entries e => put e.1 e.2 entries) entries)).Nodup ∧
        ∀ item ∈ given.foldl (fun entries e => put e.1 e.2 entries) entries, item ∈ entries ∨ item ∈ given := by
    induction given with
    | nil => exact fun entries hentries => ⟨hentries, fun item hitem => .inl hitem⟩
    | cons e rest ih =>
      intro entries hentries
      obtain ⟨hnodup, hmem⟩ := ih (put e.1 e.2 entries) (nodup_keys_put hentries)
      refine ⟨hnodup, fun item hitem => ?_⟩
      rcases hmem item hitem with h | h
      · rcases mem_put h with ⟨hn, hv⟩ | h
        · have hitem : item = e := Prod.ext hn hv
          rw [hitem]
          exact .inr List.mem_cons_self
        · exact .inl h
      · exact .inr (List.mem_cons_of_mem e h)
  obtain ⟨hnodup, hmem⟩ := hfold [] List.nodup_nil
  exact ⟨hnodup, fun item hitem => (hmem item hitem).resolve_left List.not_mem_nil⟩

theorem mem_keys_ofList {given : List (Text × α)} :
    name ∈ keys (ofList given) ↔ name ∈ given.map Prod.fst := by
  have hfold : ∀ entries : Keyed α, name ∈ keys (given.foldl (fun entries e => put e.1 e.2 entries) entries) ↔
      name ∈ keys entries ∨ name ∈ given.map Prod.fst := by
    induction given with
    | nil => exact fun entries => by simp
    | cons e rest ih =>
      intro entries
      have hput : name ∈ keys (put e.1 e.2 entries) ↔ name ∈ keys entries ∨ name = e.1 := by
        rw [keys_put]
        split
        · rename_i hold
          exact ⟨.inl, fun h => h.elim id fun hn => hn ▸ hold⟩
        · rw [List.mem_append, List.mem_singleton]
      rw [List.foldl_cons, ih, hput, List.map_cons, List.mem_cons, or_assoc]
  exact (hfold []).trans (or_iff_right List.not_mem_nil)

/-- As many values stand in the list as are given, unless two are given for one name. -/
theorem length_ofList_eq_iff (given : List (Text × α)) :
    (ofList given).length = given.length ↔ (given.map Prod.fst).Nodup := by
  have hkeys : (keys (ofList given)).toFinset = (given.map Prod.fst).toFinset := by
    ext name
    rw [List.mem_toFinset, List.mem_toFinset, mem_keys_ofList]
  have hcount : (ofList given).length = (given.map Prod.fst).dedup.length := by
    rw [← List.card_toFinset, ← hkeys, List.toFinset_card_of_nodup (ofList_spec given).1, keys, List.length_map]
  rw [hcount]
  constructor
  · intro h
    have hsame := (List.dedup_sublist (given.map Prod.fst)).eq_of_length (by rw [h, List.length_map])
    exact List.dedup_eq_self.1 hsame
  · intro h
    rw [h.dedup, List.length_map]

end Sitewright.Keyed
