import Sitewright.Json.Reader
import Sitewright.Proofs.Keyed
import Sitewright.Proofs.Outcome
/-!
# What is read

The reader makes a value from words, numbers and strings, from lists of items, and by giving members to objects one by
one. A property that all of this keeps holds of every value that is read.

* `Json.KeptByReading`: the reader makes only values with the property.
* `Json.Value.Every`: a property holds of all parts of a value, itself included.

Main statements: `Json.KeptByReading.of_read`, `Json.every_short_of_read`.
-/
set_option autoImplicit false

namespace Sitewright.Json

open Numeral (isDigit ofDigits)

variable {P : Value → Prop} {fuel : Nat} {s rest : Text} {v : Value}

/-- Whatever the reader makes of values with the property has it too. -/
structure KeptByReading (P : Value → Prop) : Prop where
  plain : ∀ s v rest, readPlain s = .ok (v, rest) → P v
  string : ∀ s, P (.string s)
  array : ∀ items, (∀ v ∈ items, P v) → P (.array items)
  empty : P (.object [])
  put : ∀ name v members, P (.object members) → P v → P (.object (Keyed.put name v members))

/-- What is read with the fuel has the property, if what has been found before has it. -/
structure ReadsOnly (P : Value → Prop) (fuel : Nat) : Prop where
  value : ∀ s v rest, readValue fuel s = .ok (v, rest) → P v
  items : ∀ found s v rest, (∀ w ∈ found, P w) → readItems fuel found s = .ok (v, rest) → P v
  members : ∀ found s v rest, P (.object found) → readMembers fuel found s = .ok (v, rest) → P v

namespace KeptByReading

theorem step_value (hP : KeptByReading P) (h : ReadsOnly P fuel) (hread : readValue (fuel + 1) s = .ok (v, rest)) :
    P v := by
  unfold readValue at hread
  split at hread
  · obtain ⟨⟨text, after⟩, htext, hread⟩ := ok_of_bind hread
    cases hread
    exact hP.string _
  · split at hread
    · cases hread
      exact hP.array _ (List.forall_mem_nil _)
    · exact h.items _ _ _ _ (List.forall_mem_nil _) hread
  · split at hread
    · cases hread
      exact hP.empty
    · exact h.members _ _ _ _ hP.empty hread
  · exact hP.plain _ _ _ hread

theorem step_items (hP : KeptByReading P) {found : List Value} (h : ReadsOnly P fuel) (hfound : ∀ w ∈ found, P w)
    (hread : readItems (fuel + 1) found s = .ok (v, rest)) : P v := by
  unfold readItems at hread
  split at hread
  · cases hread
  · rename_i w after hw
    have hall : ∀ x ∈ w :: found, P x := List.forall_mem_cons.2 ⟨h.value _ _ _ hw, hfound⟩
    split at hread
    · cases hread
      exact hP.array _ fun x hx => hall x (List.mem_reverse.1 hx)
    · exact h.items _ _ _ _ hall hread
    · cases hread

theorem step_members (hP : KeptByReading P) {found : Members} (h : ReadsOnly P fuel) (hfound : P (.object found))
    (hread : readMembers (fuel + 1) found s = .ok (v, rest)) : P v := by
  unfold readMembers at hread
  split at hread
  · split at hread
    · cases hread
    · split at hread
      · split at hread
        · cases hread
        · rename_i name _ _ w after hw
          have hput := fun name => hP.put name w found hfound (h.value _ _ _ hw)
          simp only at hread
          split at hread
          · cases hread
            exact hput _
          · exact h.members _ _ _ _ (hput _) hread
          · cases hread
      · cases hread
  · cases hread

theorem readsOnly (hP : KeptByReading P) (fuel : Nat) : ReadsOnly P fuel := by
  induction fuel with
  | zero => exact ⟨nofun, nofun, nofun⟩
  | succ fuel ih =>
    exact ⟨fun _ _ _ h => hP.step_value ih h, fun _ _ _ _ hfound h => hP.step_items ih hfound h,
      fun _ _ _ _ hfound h => hP.step_members ih hfound h⟩

/-- The value of a document has the property. -/
theorem of_read (hP : KeptByReading P) (h : read s = .ok v) : P v := by
  obtain ⟨⟨w, rest⟩, hvalue, hread⟩ := ok_of_bind h
  simp only at hread
  split at hread
  · cases hread
    exact (hP.readsOnly _).value _ _ _ hvalue
  · cases hread

end KeptByReading

theorem readPlain_cases (h : readPlain s = .ok (v, rest)) :
    (∃ w ∈ words, w.2 = v) ∨ ∃ negative body, readMagnitude negative body = .ok (v, rest) := by
  unfold readPlain at h
  split at h
  · rename_i found hfound
    cases h
    obtain ⟨w, hw, hfound⟩ := List.exists_of_findSome?_eq_some hfound
    obtain ⟨after, -, hvalue⟩ := Option.map_eq_some_iff.1 hfound
    cases hvalue
    exact .inl ⟨w, hw, rfl⟩
  · split at h
    · exact .inr ⟨_, _, h⟩
    · exact .inr ⟨_, _, h⟩

/-! ## All parts of a value -/

/-- The property holds of the value, of its items or the values of its members, and so on. -/
inductive Value.Every (P : Value → Prop) : Value → Prop
  | null (h : P .null) : Every P .null
  | bool {b : Bool} (h : P (.bool b)) : Every P (.bool b)
  | int {n : Int} (h : P (.int n)) : Every P (.int n)
  | real {d : Double} (h : P (.real d)) : Every P (.real d)
  | string {s : Text} (h : P (.string s)) : Every P (.string s)
  | array {items : List Value} (h : P (.array items)) (hitems : ∀ v ∈ items, Every P v) : Every P (.array items)
  | object {members : Members} (h : P (.object members)) (hmembers : ∀ m ∈ members, Every P m.2) :
      Every P (.object members)

/-! ## Whole numbers that are read -/

/-- The value is no whole number of more digits than are read. -/
def Value.Short (v : Value) : Prop := ∀ n, v = .int n → (Integer.ofNat n.natAbs).length ≤ Integer.digitLimit

theorem ofDigits_lt {digits : Text} (h : ∀ c ∈ digits, isDigit c = true) : ofDigits digits < 10 ^ digits.length := by
  have hfold : ∀ n, (digits.foldl (fun n c => 10 * n + (c.toNat - 48)) n) < (n + 1) * 10 ^ digits.length := by
    induction digits with
    | nil => intro n; simp
    | cons c digits ih =>
      obtain ⟨hc, hlater⟩ := List.forall_mem_cons.1 h
      intro n
      have hdigit : c.toNat - 48 < 10 := by
        rw [isDigit, Bool.and_eq_true, decide_eq_true_eq, decide_eq_true_eq] at hc
        omega
      calc _ < (10 * n + (c.toNat - 48) + 1) * 10 ^ digits.length := ih hlater _
        _ ≤ (10 * (n + 1)) * 10 ^ digits.length := Nat.mul_le_mul_right _ (by omega)
        _ = (n + 1) * 10 ^ (c :: digits).length := by rw [List.length_cons, Nat.pow_succ]; ring
  have h0 := hfold 0
  rwa [Nat.zero_add, Nat.one_mul] at h0

theorem length_ofNat_ofDigits {digits : Text} (h : ∀ c ∈ digits, isDigit c = true)
    (hlength : digits.length ≤ Integer.digitLimit) :
    (Integer.ofNat (ofDigits digits)).length ≤ Integer.digitLimit := by
  refine Nat.toDigits_length 10 _ _ (by decide) ((ofDigits_lt h).trans_le ?_)
  exact Nat.pow_le_pow_right (by decide) hlength

theorem every_short_int {digits : Text} (h : ∀ c ∈ digits, isDigit c = true)
    (hlength : ¬ digits.length > Integer.digitLimit) {n : Int} (hn : n.natAbs = ofDigits digits) :
    (Value.int n).Every Value.Short := by
  refine .int fun m hm => ?_
  rw [← Value.int.inj hm, hn]
  exact length_ofNat_ofDigits h (Nat.not_lt.1 hlength)

theorem every_short_of_readMagnitude {negative : Bool} (h : readMagnitude negative s = .ok (v, rest)) :
    v.Every Value.Short := by
  have hzero : ∀ c ∈ ['0'], isDigit c = true := List.forall_mem_singleton.2 rfl
  have htaken : ∀ c ∈ s.takeWhile isDigit, isDigit c = true := fun c hc => List.mem_takeWhile_imp hc
  have hnegative : ∀ n : Nat, (-(n : Int)).natAbs = n := fun n => by rw [Int.natAbs_neg, Int.natAbs_natCast]
  unfold readMagnitude at h
  simp only at h
  -- a zero in front is the whole number, and otherwise all digits in front are
  split at h
  · split_ifs at h with _ _ hlong <;> cases h
    · exact every_short_int hzero hlong (hnegative _)
    · exact every_short_int hzero hlong (Int.natAbs_natCast _)
    · exact .real nofun
  · split_ifs at h with _ _ hlong <;> cases h
    · exact every_short_int htaken hlong (hnegative _)
    · exact every_short_int htaken hlong (Int.natAbs_natCast _)
    · exact .real nofun

theorem every_short_of_mem_words : ∀ w ∈ words, w.2.Every Value.Short := by
  simp only [words, List.forall_mem_cons]
  exact ⟨.null nofun, .bool nofun, .bool nofun, .real nofun, .real nofun, .real nofun, List.forall_mem_nil _⟩

theorem every_short_of_readPlain (h : readPlain s = .ok (v, rest)) : v.Every Value.Short := by
  obtain ⟨w, hw, rfl⟩ | ⟨negative, body, h⟩ := readPlain_cases h
  · exact every_short_of_mem_words w hw
  · exact every_short_of_readMagnitude h

theorem every_short_kept : KeptByReading (Value.Every Value.Short) where
  plain _ _ _ := every_short_of_readPlain
  string _ := .string nofun
  array _ := .array nofun
  empty := .object nofun (List.forall_mem_nil _)
  put name v members hmembers hv := by
    cases hmembers with
    | object _ hfound =>
      refine .object nofun fun m hm => ?_
      rcases Keyed.mem_put hm with ⟨-, hvalue⟩ | hm
      · exact hvalue ▸ hv
      · exact hfound m hm

/-- No whole number of more digits than are read is in a value that has been read. -/
theorem every_short_of_read (h : read s = .ok v) : v.Every Value.Short := every_short_kept.of_read h

end Sitewright.Json
