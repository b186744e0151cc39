import Sitewright.Proofs.Json.RoundTrip
/-!
# Documents of printable characters

In the spaced style everything beyond printable ASCII is escaped, so a document holds no line end, whatever its strings
hold. Doubles are left out.

Main statement: `Json.printable_write`.
-/
set_option autoImplicit false

namespace Sitewright

/-- A printable character of ASCII, the blank among them. -/
def Printable (c : Char) : Prop := 0x20 ≤ c.toNat ∧ c.toNat ≤ 0x7e

instance (c : Char) : Decidable (Printable c) := inferInstanceAs (Decidable (_ ∧ _))

theorem Printable.not_line_end {c : Char} (h : Printable c) : c ≠ '\n' ∧ c ≠ '\r' := by
  constructor <;> rintro rfl <;> exact absurd h (by decide)

theorem printable_of_all {s : Text} (h : (s.all fun c => decide (Printable c)) = true) : ∀ c ∈ s, Printable c :=
  fun c hc => of_decide_eq_true (List.all_eq_true.1 h c hc)

namespace Json

open Numeral (isDigit)

variable {c : Char} {items : List Value} {members : Members} {v : Value}

/-! ## Strings -/

theorem printable_unitEscape (n : Nat) : ∀ c ∈ unitEscape n, Printable c := by
  have hdigits : ∀ k < 16, Printable (Nat.digitChar k) := by decide
  refine List.forall_mem_cons.2 ⟨by decide, List.forall_mem_cons.2 ⟨by decide, fun c hc => ?_⟩⟩
  obtain ⟨k, hk, rfl⟩ := Integer.mem_hex hc
  exact hdigits k hk

theorem printable_codeEscape (c : Char) : ∀ d ∈ codeEscape c, Printable d := by
  unfold codeEscape
  simp only
  split
  · exact printable_unitEscape _
  · exact List.forall_mem_append.2 ⟨printable_unitEscape _, printable_unitEscape _⟩

theorem printable_char (c : Char) : ∀ d ∈ Style.spaced.char c, Printable d := by
  unfold Style.char
  split_ifs with _ _ _ _ _ _ _ hcontrol hbeyond
  iterate 7 exact printable_of_all (by decide)
  · exact printable_codeEscape c
  · exact printable_codeEscape c
  · have hlast : ¬ c.toNat > 0x7e := by simpa [Style.spaced] using hbeyond
    exact List.forall_mem_singleton.2 ⟨Nat.not_lt.1 hcontrol, Nat.not_lt.1 hlast⟩

theorem printable_string (s : Text) : ∀ c ∈ Style.spaced.string s, Printable c := by
  refine List.forall_mem_append.2 ⟨List.forall_mem_cons.2 ⟨by decide, fun c hc => ?_⟩, printable_of_all (by decide)⟩
  obtain ⟨d, -, hd⟩ := List.mem_flatMap.1 hc
  exact printable_char d c hd

/-! ## Values -/

theorem printable_ofInt (n : Int) : ∀ c ∈ Integer.ofInt n, Printable c := by
  have hdigits : ∀ n : Nat, ∀ c ∈ Integer.ofNat n, Printable c := fun n c hc => by
    have hdigit := isDigit_of_mem_ofNat hc
    rw [isDigit, Bool.and_eq_true, decide_eq_true_eq, decide_eq_true_eq] at hdigit
    exact ⟨by omega, by omega⟩
  cases n with
  | ofNat n => exact hdigits n
  | negSucc n => exact List.forall_mem_cons.2 ⟨by decide, hdigits (n + 1)⟩

theorem printable_writeItems (h : ∀ v ∈ items, ∀ c ∈ Style.spaced.write v, Printable c) (first : Bool) :
    ∀ c ∈ Style.spaced.writeItems first items, Printable c := by
  induction items generalizing first with
  | nil => exact List.forall_mem_nil _
  | cons v items ih =>
    obtain ⟨hv, hitems⟩ := List.forall_mem_cons.1 h
    have hcomma : ∀ c ∈ if first then [] else Style.spaced.comma, Printable c := by
      cases first <;> exact printable_of_all (by decide)
    rw [Style.writeItems]
    exact List.forall_mem_append.2 ⟨hcomma, List.forall_mem_append.2 ⟨hv, ih hitems false⟩⟩

theorem printable_writeMembers (h : ∀ m ∈ members, ∀ c ∈ Style.spaced.write m.2, Printable c) (first : Bool) :
    ∀ c ∈ Style.spaced.writeMembers first members, Printable c := by
  induction members generalizing first with
  | nil => exact List.forall_mem_nil _
  | cons m members ih =>
    obtain ⟨name, v⟩ := m
    obtain ⟨hv, hmembers⟩ := List.forall_mem_cons.1 h
    have hcomma : ∀ c ∈ if first then [] else Style.spaced.comma, Printable c := by
      cases first <;> exact printable_of_all (by decide)
    have hcolon : ∀ c ∈ Style.spaced.colon, Printable c := printable_of_all (by decide)
    rw [Style.writeMembers]
    simp only [List.forall_mem_append]
    exact ⟨hcomma, ⟨⟨printable_string name, hcolon⟩, hv⟩, ih hmembers false⟩

/-- A value without doubles is written in printable characters. -/
theorem printable_write (h : v.Every Value.NotReal) : ∀ c ∈ Style.spaced.write v, Printable c := by
  induction h with
  | null => exact printable_of_all (by decide)
  | @bool b => cases b <;> exact printable_of_all (by decide)
  | int => exact printable_ofInt _
  | real h => exact absurd rfl (h _)
  | string => exact printable_string _
  | array _ _ ih =>
    rw [Style.write]
    exact List.forall_mem_append.2 ⟨List.forall_mem_cons.2 ⟨by decide, printable_writeItems ih true⟩,
      printable_of_all (by decide)⟩
  | object _ _ ih =>
    rw [Style.write]
    exact List.forall_mem_append.2 ⟨List.forall_mem_cons.2 ⟨by decide, printable_writeMembers ih true⟩,
      printable_of_all (by decide)⟩

end Json
end Sitewright
