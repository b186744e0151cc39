import Mathlib
import Sitewright.Text.Integer
/-!
# Reading texts that look numeric

A text looks numeric where each of its characters has a digit value. It is read as an integer only if each of them is a
decimal digit, of whatever script, and they are not too many.

* `Integer.Denotes`: decimal digits denote a number.

Main statements: `Integer.read_of_looksNumeric` says what such a text is read as, `Integer.read_eq_ok_iff` and
`Integer.read_fails_iff` when it is read and when it is refused.
-/
set_option autoImplicit false

namespace Sitewright

namespace Text

variable {c : Char}

theorem blankRanges_apart : ∀ r ∈ blankRanges,
    (∀ z ∈ zeros, r.2 < z ∨ z + 10 ≤ r.1) ∧ ∀ q ∈ digitLikeRanges, r.2 < q.1 ∨ q.2 < r.1 := by
  decide

theorem isDigitLike_iff : isDigitLike c = true ↔
    (∃ z ∈ zeros, z ≤ c.toNat ∧ c.toNat < z + 10) ∨ ∃ q ∈ digitLikeRanges, q.1 ≤ c.toNat ∧ c.toNat ≤ q.2 := by
  simp [isDigitLike, digit?, CharRanges.has, List.find?_isSome]

theorem isBlank_eq_false (h : isDigitLike c = true) : isBlank c = false := by
  rw [Bool.eq_false_iff]
  intro hblank
  obtain ⟨r, hr, hrange⟩ := List.any_eq_true.1 hblank
  simp only [Bool.and_eq_true, decide_eq_true_eq] at hrange
  obtain ⟨hzeros, hranges⟩ := blankRanges_apart r hr
  rcases isDigitLike_iff.1 h with ⟨z, hz, hzc⟩ | ⟨q, hq, hqc⟩
  · have hapart := hzeros z hz
    omega
  · have hapart := hranges q hq
    omega

end Text

namespace Integer

open Text (digit? isDigitLike looksNumeric)

variable {s digits rest : Text} {c : Char} {n : Nat} {z : Int}

/-! ## Characters -/

theorem isBlank_of_isEdgeBlank (h : isEdgeBlank c = true) : Text.isBlank c = true := by
  unfold isEdgeBlank at h
  split at h
  · rw [Bool.or_eq_true, decide_eq_true_eq, Bool.and_eq_true, decide_eq_true_eq, decide_eq_true_eq] at h
    rcases h with rfl | h
    · decide
    · exact List.any_eq_true.2 ⟨(0x9, 0xd), by decide, by simpa using h⟩
  · exact h

theorem isEdgeBlank_eq_false (h : isDigitLike c = true) : isEdgeBlank c = false := by
  rw [Bool.eq_false_iff]
  intro hedge
  have hblank := isBlank_of_isEdgeBlank hedge
  rw [Text.isBlank_eq_false h] at hblank
  exact Bool.false_ne_true hblank

/-- The letters of ASCII have values from ten on. -/
theorem digitIn?_ten (c : Char) : digitIn? 10 c = digit? c := by
  unfold digitIn?
  cases hc : digit? c with
  | some d => simpa using Text.digit?_lt_ten hc
  | none =>
    simp only [Option.filter_eq_none_iff, decide_eq_true_eq, Nat.not_lt]
    intro d hd
    split at hd
    · rename_i h
      cases hd
      simp only [Bool.and_eq_true, decide_eq_true_eq, Char.le_def, UInt32.le_iff_toNat_le] at h
      change 97 ≤ c.toNat ∧ _ at h
      omega
    · split at hd
      · rename_i h
        cases hd
        simp only [Bool.and_eq_true, decide_eq_true_eq, Char.le_def, UInt32.le_iff_toNat_le] at h
        change 65 ≤ c.toNat ∧ _ at h
        omega
      · cases hd

/-! ## Runs of digits -/

def isDecimal (c : Char) : Bool := (digit? c).isSome

def valueOf (digits : Text) : Nat := digits.foldl (fun n c => 10 * n + (digit? c).getD 0) 0

theorem isDigitLike_of_isDecimal (h : isDecimal c = true) : isDigitLike c = true := by
  rw [isDigitLike, Bool.or_eq_true]
  exact .inl h

theorem run?_append (h : ∀ c ∈ digits, isDecimal c = true) (value count : Nat) (rest : Text) :
    run? 10 value count false (digits ++ rest) =
      run? 10 (digits.foldl (fun n c => 10 * n + (digit? c).getD 0) value) (count + digits.length) false rest := by
  induction digits generalizing value count with
  | nil => rfl
  | cons c digits ih =>
    obtain ⟨hc, hdigits⟩ := List.forall_mem_cons.1 h
    obtain ⟨d, hd⟩ := Option.isSome_iff_exists.1 hc
    rw [List.cons_append, run?, digitIn?_ten, hd]
    simp only
    rw [ih hdigits, List.foldl_cons, hd, List.length_cons, Option.getD_some]
    congr 1
    omega

theorem run?_stop (h : isDecimal c = false) (hbar : c ≠ '_') (value count : Nat) (rest : Text) :
    run? 10 value count false (c :: rest) = some ⟨value, count, c :: rest⟩ := by
  have hnone : digit? c = none := by
    rw [← Option.not_isSome_iff_eq_none]
    exact Bool.eq_false_iff.1 h
  rw [run?, digitIn?_ten, hnone]
  simp [hbar]

theorem looksNumeric_iff : looksNumeric s = true ↔ s ≠ [] ∧ ∀ c ∈ s, isDigitLike c = true := by
  rw [looksNumeric, Bool.and_eq_true, Bool.not_eq_true', List.isEmpty_eq_false_iff, List.all_eq_true]

theorem run?_of_decimal (h : ∀ c ∈ s, isDecimal c = true) :
    run? 10 0 0 false s = some ⟨valueOf s, s.length, []⟩ := by
  have hrun := run?_append h 0 0 []
  rwa [List.append_nil, Nat.zero_add] at hrun

/-- A text that looks numeric is read as far as its decimal digits go. -/
theorem readMagnitude_of_looksNumeric (h : looksNumeric s = true) : readMagnitude 10 s =
    if digitLimit < (s.takeWhile isDecimal).length then .error (.tooLong (s.takeWhile isDecimal).length)
    else if s.all isDecimal = true then .ok (valueOf s) else .error .malformed := by
  obtain ⟨hne, hlike⟩ := looksNumeric_iff.1 h
  have hhead : s.head? ≠ some '_' := fun hbar => absurd (hlike _ (List.mem_of_head? hbar)) (by decide)
  unfold readMagnitude
  simp only [dropMark_ten, if_neg hhead]
  cases hrest : s.dropWhile isDecimal with
  | nil =>
    have hall : ∀ c ∈ s, isDecimal c = true := by simpa using hrest
    have htake : s.takeWhile isDecimal = s := List.takeWhile_eq_self_iff.2 hall
    have hlen : s.length ≠ 0 := fun hzero => hne (List.length_eq_zero_iff.1 hzero)
    rw [run?_of_decimal hall, htake, if_pos (List.all_eq_true.2 hall)]
    simp [hlen]
  | cons c rest =>
    have hsplit := List.takeWhile_append_dropWhile (p := isDecimal) (l := s)
    have hc : isDecimal c = false := by
      have hnot := List.head_dropWhile_not isDecimal (l := s) (by rw [hrest]; exact List.cons_ne_nil _ _)
      simpa [hrest] using hnot
    have hmem : c ∈ s := (List.dropWhile_suffix isDecimal).subset (hrest ▸ List.mem_cons_self)
    have hbar : c ≠ '_' := fun hc => absurd (hlike _ hmem) (hc ▸ by decide)
    have hrun : run? 10 0 0 false s =
        some ⟨valueOf (s.takeWhile isDecimal), (s.takeWhile isDecimal).length, c :: rest⟩ := by
      conv_lhs => rw [← hsplit, hrest]
      rw [run?_append (fun c hc => List.mem_takeWhile_imp hc), run?_stop hc hbar, Nat.zero_add]
      rfl
    have hall : s.all isDecimal = false := List.all_eq_false.2 ⟨c, hmem, Bool.eq_false_iff.1 hc⟩
    rw [hrun, hall]
    simp [isEdgeBlank_eq_false (hlike c hmem)]

theorem read_of_looksNumeric (h : looksNumeric s = true) : read s =
    if digitLimit < (s.takeWhile isDecimal).length then .error (.tooLong (s.takeWhile isDecimal).length)
    else if s.all isDecimal = true then .ok (valueOf s) else .error .malformed := by
  obtain ⟨hne, hlike⟩ := looksNumeric_iff.1 h
  obtain ⟨c, rest, rfl⟩ := List.exists_cons_of_ne_nil hne
  have hc := hlike c List.mem_cons_self
  have hread : read (c :: rest) = (readMagnitude 10 (c :: rest)).map fun n => (n : Int) := by
    unfold read readIn
    rw [List.dropWhile_cons, isEdgeBlank_eq_false hc]
    split
    · rename_i heq
      cases heq
      exact absurd hc (by decide)
    · rename_i heq
      cases heq
      exact absurd hc (by decide)
    · rfl
  rw [hread, readMagnitude_of_looksNumeric h]
  split_ifs <;> rfl

theorem looksNumeric_of_decimal (hne : s ≠ []) (hall : ∀ c ∈ s, isDecimal c = true) : looksNumeric s = true :=
  looksNumeric_iff.2 ⟨hne, fun c hc => isDigitLike_of_isDecimal (hall c hc)⟩

theorem readMagnitude_of_decimal (hne : s ≠ []) (hall : ∀ c ∈ s, isDecimal c = true) (hshort : s.length ≤ digitLimit) :
    readMagnitude 10 s = .ok (valueOf s) := by
  rw [readMagnitude_of_looksNumeric (looksNumeric_of_decimal hne hall), List.takeWhile_eq_self_iff.2 hall,
    if_neg (Nat.not_lt.2 hshort), if_pos (List.all_eq_true.2 hall)]

theorem read_of_decimal (hne : s ≠ []) (hall : ∀ c ∈ s, isDecimal c = true) (hshort : s.length ≤ digitLimit) :
    read s = .ok (valueOf s) := by
  rw [read_of_looksNumeric (looksNumeric_of_decimal hne hall), List.takeWhile_eq_self_iff.2 hall,
    if_neg (Nat.not_lt.2 hshort), if_pos (List.all_eq_true.2 hall)]

/-! ## The number that digits denote -/

/-- Decimal digits denote a number: each digit counts ten times as much as the one behind it. -/
inductive Denotes : Text → Nat → Prop
  | single {c : Char} {d : Nat} (h : digit? c = some d) : Denotes [c] d
  | snoc {s : Text} {n : Nat} {c : Char} {d : Nat} (hs : Denotes s n) (h : digit? c = some d) :
      Denotes (s ++ [c]) (10 * n + d)

theorem denotes_iff : Denotes s n ↔ s ≠ [] ∧ (∀ c ∈ s, isDecimal c = true) ∧ valueOf s = n := by
  constructor
  · intro h
    induction h with
    | single h => simp [isDecimal, valueOf, h]
    | @snoc s n c d hs h ih =>
      obtain ⟨-, hall, hvalue⟩ := ih
      refine ⟨by simp, ?_, by simp [valueOf, h, ← hvalue]⟩
      rw [List.forall_mem_append, List.forall_mem_singleton, isDecimal, h]
      exact ⟨hall, rfl⟩
  · rintro ⟨hne, hall, rfl⟩
    -- from behind, since the digit that counts least stands there
    induction s using List.reverseRecOn with
    | nil => exact absurd rfl hne
    | append_singleton s c ih =>
      rw [List.forall_mem_append, List.forall_mem_singleton] at hall
      obtain ⟨d, hd⟩ := Option.isSome_iff_exists.1 hall.2
      cases hs : s with
      | nil => simpa [valueOf, hd] using Denotes.single hd
      | cons b rest =>
        have hfront := ih (by rw [hs]; exact List.cons_ne_nil _ _) hall.1
        rw [← hs]
        simpa [valueOf, hd] using hfront.snoc hd

theorem Denotes.unique {m : Nat} (hn : Denotes s n) (hm : Denotes s m) : n = m :=
  (denotes_iff.1 hn).2.2.symm.trans (denotes_iff.1 hm).2.2

theorem Denotes.looksNumeric (h : Denotes s n) : looksNumeric s = true := by
  obtain ⟨hne, hall, -⟩ := denotes_iff.1 h
  exact looksNumeric_of_decimal hne hall

/-- A text that looks numeric is read as a number that its characters denote as decimal digits, if these are not too
many. -/
theorem read_eq_ok_iff (h : looksNumeric s = true) :
    read s = .ok z ↔ s.length ≤ digitLimit ∧ ∃ n : Nat, Denotes s n ∧ z = n := by
  rw [read_of_looksNumeric h]
  by_cases hall : ∀ c ∈ s, isDecimal c = true
  · rw [List.takeWhile_eq_self_iff.2 hall, if_pos (List.all_eq_true.2 hall)]
    have hdenotes : Denotes s (valueOf s) := denotes_iff.2 ⟨(looksNumeric_iff.1 h).1, hall, rfl⟩
    split
    · rename_i hlong
      simp [Nat.not_le.2 hlong]
    · rename_i hshort
      rw [Except.ok.injEq]
      constructor
      · rintro rfl
        exact ⟨Nat.not_lt.1 hshort, _, hdenotes, rfl⟩
      · rintro ⟨-, n, hn, rfl⟩
        rw [hdenotes.unique hn]
  · rw [if_neg (c := List.all s isDecimal = true) (by rwa [List.all_eq_true])]
    refine iff_of_false ?_ fun ⟨_, n, hn, _⟩ => hall (denotes_iff.1 hn).2.1
    split <;> exact nofun

/-- A text that looks numeric is refused if one of its characters is no decimal digit, or if they are too many. -/
theorem read_fails_iff (h : looksNumeric s = true) :
    (∃ problem, read s = .error problem) ↔ (∃ c ∈ s, digit? c = none) ∨ digitLimit < s.length := by
  constructor
  · rintro ⟨problem, hproblem⟩
    by_contra hgood
    push Not at hgood
    obtain ⟨hall, hshort⟩ := hgood
    have hdenotes : Denotes s (valueOf s) :=
      denotes_iff.2 ⟨(looksNumeric_iff.1 h).1, fun c hc => Option.isSome_iff_ne_none.2 (hall c hc), rfl⟩
    rw [(read_eq_ok_iff h).2 ⟨hshort, _, hdenotes, rfl⟩] at hproblem
    cases hproblem
  · intro hbad
    cases hread : read s with
    | error problem => exact ⟨problem, rfl⟩
    | ok z =>
      obtain ⟨hshort, n, hn, -⟩ := (read_eq_ok_iff h).1 hread
      rcases hbad with ⟨c, hc, hnone⟩ | hlong
      · exact absurd hnone (Option.isSome_iff_ne_none.1 ((denotes_iff.1 hn).2.1 c hc))
      · exact absurd hshort (Nat.not_le.2 hlong)

end Integer
end Sitewright
