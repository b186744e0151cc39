import Sitewright.Text.Basic
/-!
# Keyed lists

A keyed list holds values by name, each name at the place where it was first given. Giving a name a
new value keeps its place.

Main statements: the name has its new value (`get?_put_self`), every other name keeps its own
(`get?_put_of_ne`), and the names are those before with the new one behind them where it is new
(`keys_put`).
-/
set_option autoImplicit false

namespace Sitewright

/-- Values by name, in the order in which the names were first given. -/
abbrev Keyed (α : Type) := List (Text × α)

namespace Keyed

variable {α : Type}

def get? (name : Text) : Keyed α → Option α
  | [] => none
  | (n, v) :: rest => if n = name then some v else get? name rest

def put (name : Text) (value : α) : Keyed α → Keyed α
  | [] => [(name, value)]
  | (n, v) :: rest => if n = name then (n, value) :: rest else (n, v) :: put name value rest

def remove (name : Text) (entries : Keyed α) : Keyed α := entries.filter fun e => !decide (e.1 = name)

/-- The names, in order. -/
def keys (entries : Keyed α) : List Text := entries.map Prod.fst

def ofList (given : List (Text × α)) : Keyed α :=
  given.foldl (fun entries e => put e.1 e.2 entries) []

theorem get?_put_self (name : Text) (value : α) (entries : Keyed α) :
    get? name (put name value entries) = some value := by
  induction entries with
  | nil => simp [put, get?]
  | cons e rest ih =>
    obtain ⟨n, v⟩ := e
    by_cases h : n = name <;> simp [put, get?, h, ih]

theorem get?_put_of_ne {name other : Text} (h : other ≠ name) (value : α) (entries : Keyed α) :
    get? other (put name value entries) = get? other entries := by
  induction entries with
  | nil => simp [put, get?, h.symm]
  | cons e rest ih =>
    obtain ⟨n, v⟩ := e
    by_cases hn : n = name
    · subst hn
      simp [put, get?, h.symm]
    · simp [put, get?, hn, ih]

theorem get?_remove_self (name : Text) (entries : Keyed α) :
    get? name (remove name entries) = none := by
  induction entries with
  | nil => rfl
  | cons e rest ih =>
    obtain ⟨n, v⟩ := e
    by_cases hn : n = name
    · simpa [remove, hn] using ih
    · simpa [remove, get?, hn] using ih

theorem get?_remove_of_ne {name other : Text} (h : other ≠ name) (entries : Keyed α) :
    get? other (remove name entries) = get? other entries := by
  induction entries with
  | nil => rfl
  | cons e rest ih =>
    obtain ⟨n, v⟩ := e
    by_cases hn : n = name
    · subst hn
      simpa [remove, get?, h.symm] using ih
    · by_cases ho : n = other
      · simp [remove, get?, ho, h]
      · simpa [remove, get?, hn, ho] using ih

theorem of_get?_put {name other : Text} {value v : α} {entries : Keyed α}
    (h : get? other (put name value entries) = some v) :
    other = name ∧ v = value ∨ get? other entries = some v := by
  by_cases hother : other = name
  · subst hother
    rw [get?_put_self] at h
    exact .inl ⟨rfl, (Option.some.inj h).symm⟩
  · rw [get?_put_of_ne hother] at h
    exact .inr h

theorem of_get?_remove {name other : Text} {v : α} {entries : Keyed α}
    (h : get? other (remove name entries) = some v) : get? other entries = some v := by
  by_cases hother : other = name
  · subst hother
    rw [get?_remove_self] at h
    cases h
  · rw [get?_remove_of_ne hother] at h
    exact h

theorem keys_put (name : Text) (value : α) (entries : Keyed α) :
    keys (put name value entries) =
      if name ∈ keys entries then keys entries else keys entries ++ [name] := by
  induction entries with
  | nil => simp [put, keys]
  | cons e rest ih =>
    obtain ⟨n, v⟩ := e
    by_cases hn : n = name
    · subst hn
      simp [put, keys]
    · simp only [put, keys, hn, if_false, List.map_cons] at ih ⊢
      rw [ih]
      have hne : ¬ name = n := fun h => hn h.symm
      by_cases hm : name ∈ rest.map Prod.fst <;> simp [hm, hne]

theorem put_of_not_mem {name : Text} {value : α} {entries : Keyed α} (h : name ∉ keys entries) :
    put name value entries = entries ++ [(name, value)] := by
  induction entries with
  | nil => rfl
  | cons e rest ih =>
    obtain ⟨n, v⟩ := e
    have hkeys : name ≠ n ∧ name ∉ keys rest := by
      rw [← not_or, ← List.mem_cons]
      exact h
    rw [put, if_neg fun hn => hkeys.1 hn.symm, ih hkeys.2, List.cons_append]

end Keyed
end Sitewright
