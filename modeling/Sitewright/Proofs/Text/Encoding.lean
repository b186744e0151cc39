import Mathlib
import Sitewright.Digest.Sha256
import Sitewright.Text.Newline
import Sitewright.Text.Utf8
/-!
# Writing a text and reading it back

A text that is written to a file and read again is decoded and has its line ends normalised. The first
gives the text itself, the second as well where the text holds no carriage return.

Main statements: `Utf8.decode_encode` and `Newline.normalize_of_not_mem`.
-/
set_option autoImplicit false

namespace Sitewright

/-! ## Bytes of a character -/

namespace Utf8

theorem toNat_ofNat {n : Nat} (h : n < 256) : (UInt8.ofNat n).toNat = n := by
  rw [UInt8.toNat_ofNat']
  exact Nat.mod_eq_of_lt h

theorem continueChar_cons {lo hi value taken count k : Nat} {rest : Bytes} (hlo : lo ≤ 0x80 + k)
    (hhi : 0x80 + k ≤ hi) (hk : k < 64) :
    continueChar lo hi value taken (count + 1) (UInt8.ofNat (0x80 + k) :: rest) =
      continueChar 0x80 0xBF (value * 64 + k) (taken + 1) count rest := by
  have hnat : (UInt8.ofNat (0x80 + k)).toNat = 0x80 + k := toNat_ofNat (by omega)
  have hwithin : within lo hi (UInt8.ofNat (0x80 + k)) = true := by
    rw [within, hnat, decide_eq_true hlo, decide_eq_true hhi]
    rfl
  have hlow : low (UInt8.ofNat (0x80 + k)) = k := by
    rw [low, hnat]
    omega
  rw [continueChar, if_pos hwithin, hlow]

theorem continueChar_zero {lo hi value taken : Nat} {rest : Bytes} (c : Char) (h : value = c.toNat) :
    continueChar lo hi value taken 0 rest = .char c rest := by
  rw [continueChar, h, Char.ofNat_toNat]

theorem toNat_valid (c : Char) : c.toNat < 0xD800 ∨ (0xDFFF < c.toNat ∧ c.toNat < 0x110000) := c.valid

theorem front_two {c : Char} {rest : Bytes} (h1 : 0x80 ≤ c.toNat) (h2 : c.toNat < 0x800) :
    front (UInt8.ofNat (0xC0 + c.toNat / 64)) (UInt8.ofNat (0x80 + c.toNat % 64) :: rest) =
      .char c rest := by
  have hnat : (UInt8.ofNat (0xC0 + c.toNat / 64)).toNat = 0xC0 + c.toNat / 64 := toNat_ofNat (by omega)
  unfold front
  simp only [hnat]
  rw [if_neg (by omega), if_neg (by omega), if_pos (by omega),
    continueChar_cons (by omega) (by omega) (by omega), continueChar_zero c (by omega)]

theorem front_three {c : Char} {rest : Bytes} (h1 : 0x800 ≤ c.toNat) (h2 : c.toNat < 0x10000) :
    front (UInt8.ofNat (0xE0 + c.toNat / 4096)) (UInt8.ofNat (0x80 + c.toNat / 64 % 64) ::
      UInt8.ofNat (0x80 + c.toNat % 64) :: rest) = .char c rest := by
  have hnat : (UInt8.ofNat (0xE0 + c.toNat / 4096)).toNat = 0xE0 + c.toNat / 4096 :=
    toNat_ofNat (by omega)
  have hvalid := toNat_valid c
  unfold front
  simp only [hnat]
  rw [if_neg (by omega), if_neg (by omega), if_neg (by omega)]
  -- the bounds of the second byte shut out long forms and surrogates
  split
  · rw [continueChar_cons (by omega) (by omega) (by omega),
      continueChar_cons (by omega) (by omega) (by omega), continueChar_zero c (by omega)]
  · split
    · rw [continueChar_cons (by omega) (by omega) (by omega),
        continueChar_cons (by omega) (by omega) (by omega), continueChar_zero c (by omega)]
    · rw [if_pos (by omega), continueChar_cons (by omega) (by omega) (by omega),
        continueChar_cons (by omega) (by omega) (by omega), continueChar_zero c (by omega)]

theorem front_four {c : Char} {rest : Bytes} (h : 0x10000 ≤ c.toNat) :
    front (UInt8.ofNat (0xF0 + c.toNat / 262144)) (UInt8.ofNat (0x80 + c.toNat / 4096 % 64) ::
      UInt8.ofNat (0x80 + c.toNat / 64 % 64) :: UInt8.ofNat (0x80 + c.toNat % 64) :: rest) =
        .char c rest := by
  have hvalid := toNat_valid c
  have hnat : (UInt8.ofNat (0xF0 + c.toNat / 262144)).toNat = 0xF0 + c.toNat / 262144 :=
    toNat_ofNat (by omega)
  unfold front
  simp only [hnat]
  rw [if_neg (by omega), if_neg (by omega), if_neg (by omega), if_neg (by omega), if_neg (by omega),
    if_neg (by omega)]
  split
  · rw [continueChar_cons (by omega) (by omega) (by omega),
      continueChar_cons (by omega) (by omega) (by omega),
      continueChar_cons (by omega) (by omega) (by omega), continueChar_zero c (by omega)]
  · split
    · rw [continueChar_cons (by omega) (by omega) (by omega),
        continueChar_cons (by omega) (by omega) (by omega),
        continueChar_cons (by omega) (by omega) (by omega), continueChar_zero c (by omega)]
    · rw [if_pos (by omega), continueChar_cons (by omega) (by omega) (by omega),
        continueChar_cons (by omega) (by omega) (by omega),
        continueChar_cons (by omega) (by omega) (by omega), continueChar_zero c (by omega)]

/-- The bytes of a character are read as that character, whatever follows them. -/
theorem front_encodeChar (c : Char) (rest : Bytes) :
    ∃ b more, encodeChar c = b :: more ∧ front b (more ++ rest) = .char c rest := by
  unfold encodeChar
  simp only
  by_cases h1 : c.toNat < 0x80
  · rw [if_pos h1]
    refine ⟨_, [], rfl, ?_⟩
    have hnat : (UInt8.ofNat c.toNat).toNat = c.toNat := toNat_ofNat (by omega)
    unfold front
    simp only [hnat]
    rw [if_pos h1, Char.ofNat_toNat]
    rfl
  · rw [if_neg h1]
    by_cases h2 : c.toNat < 0x800
    · rw [if_pos h2]
      exact ⟨_, _, rfl, front_two (by omega) h2⟩
    · rw [if_neg h2]
      by_cases h3 : c.toNat < 0x10000
      · rw [if_pos h3]
        exact ⟨_, _, rfl, front_three (by omega) h3⟩
      · rw [if_neg h3]
        exact ⟨_, _, rfl, front_four (by omega)⟩

/-! ## Bytes of a text -/

theorem encode_cons (c : Char) (s : Text) : encode (c :: s) = encodeChar c ++ encode s := rfl

theorem decodeFrom_append (out : Text) (index : Nat) (taken rest : Bytes) :
    decodeFrom out index taken.length (taken ++ rest) = decodeFrom out (index + taken.length) 0 rest := by
  induction taken generalizing index with
  | nil => rfl
  | cons b taken ih =>
    have hstep : decodeFrom out index (taken.length + 1) (b :: (taken ++ rest)) =
        decodeFrom out (index + 1) taken.length (taken ++ rest) := rfl
    rw [List.cons_append, List.length_cons, hstep, ih]
    congr 1
    omega

theorem decodeFrom_encode (out : Text) (index : Nat) (s : Text) :
    decodeFrom out index 0 (encode s) = .ok (out.reverse ++ s) := by
  induction s generalizing out index with
  | nil => simp [encode, decodeFrom]
  | cons c s ih =>
    obtain ⟨b, more, henc, hfront⟩ := front_encodeChar c (encode s)
    have hlen : (more ++ encode s).length - (encode s).length = more.length := by
      rw [List.length_append]
      omega
    rw [encode_cons, henc, List.cons_append, decodeFrom]
    simp only [hfront, hlen]
    rw [decodeFrom_append, ih]
    simp

theorem toNat_of_encodeChar {c : Char} (h : ∀ b ∈ encodeChar c, b.toNat < 0x80) :
    encodeChar c = [UInt8.ofNat c.toNat] ∧ c.toNat < 0x80 := by
  have hvalid := toNat_valid c
  unfold encodeChar at h ⊢
  simp only at h ⊢
  by_cases h1 : c.toNat < 0x80
  · rw [if_pos h1]
    exact ⟨rfl, h1⟩
  · exfalso
    rw [if_neg h1] at h
    split at h
    · have hb := h _ List.mem_cons_self
      rw [toNat_ofNat (by omega)] at hb
      omega
    · split at h
      · have hb := h _ List.mem_cons_self
        rw [toNat_ofNat (by omega)] at hb
        omega
      · have hb := h _ List.mem_cons_self
        rw [toNat_ofNat (by omega)] at hb
        omega

theorem map_encode {s : Text} (h : ∀ b ∈ encode s, b.toNat < 0x80) :
    (encode s).map (fun b => Char.ofNat b.toNat) = s := by
  induction s with
  | nil => rfl
  | cons c s ih =>
    rw [encode_cons] at h ⊢
    obtain ⟨henc, hc⟩ := toNat_of_encodeChar fun b hb => h b (List.mem_append_left _ hb)
    have hrest := ih fun b hb => h b (List.mem_append_right _ hb)
    rw [List.map_append, hrest, henc, List.map_singleton, toNat_ofNat (by omega), Char.ofNat_toNat]
    rfl

/-- A text that is written is read back. -/
theorem decode_encode (s : Text) : decode (encode s) = .ok s := by
  unfold decode
  split
  · rename_i hall
    rw [map_encode fun b hb => of_decide_eq_true (List.all_eq_true.1 hall b hb)]
  · exact decodeFrom_encode [] 0 s

end Utf8

/-! ## Line ends -/

namespace Newline

theorem normalizeFrom_of_not_mem {out s : Text} (h : '\r' ∉ s) :
    normalizeFrom out false s = out.reverse ++ s := by
  induction s generalizing out with
  | nil => simp [normalizeFrom]
  | cons c s ih =>
    rw [List.mem_cons, not_or] at h
    rw [normalizeFrom, if_neg (Ne.symm h.1)]
    simp only [Bool.and_false, Bool.false_eq_true, if_false]
    rw [ih h.2]
    simp

/-- A text without carriage returns has its line ends as they should be. -/
theorem normalize_of_not_mem {s : Text} (h : '\r' ∉ s) : normalize s = s :=
  normalizeFrom_of_not_mem h

end Newline

/-! ## Fingerprints -/

theorem Integer.mem_toDigits {n : Nat} {c : Char} (h : c ∈ Nat.toDigits 16 n) :
    ∃ k, k < 16 ∧ c = Nat.digitChar k := by
  induction n using Nat.strongRecOn with
  | _ n ih =>
    rw [Nat.toDigits_eq_if (by omega)] at h
    split at h
    · rename_i hn
      exact ⟨n, hn, List.mem_singleton.1 h⟩
    · rename_i hn
      rcases List.mem_append.1 h with h | h
      · exact ih (n / 16) (by omega) h
      · exact ⟨n % 16, by omega, List.mem_singleton.1 h⟩

theorem Integer.mem_hex {width n : Nat} {c : Char} (h : c ∈ Integer.hex width n) :
    ∃ k, k < 16 ∧ c = Nat.digitChar k := by
  rcases List.mem_append.1 h with h | h
  · exact ⟨0, by decide, (List.mem_replicate.1 h).2⟩
  · exact mem_toDigits h

theorem Sha256.not_mem_fingerprint {c : Char} (hc : ∀ k < 16, c ≠ Nat.digitChar k) (bytes : Bytes) (length : Int) :
    c ∉ fingerprint bytes length := by
  have hdigits : c ∉ hexDigest bytes := by
    intro h
    obtain ⟨b, _, hb⟩ := List.mem_flatMap.1 h
    obtain ⟨k, hk, heq⟩ := Integer.mem_hex hb
    exact hc k hk heq
  unfold fingerprint
  simp only
  split
  · exact fun h => hdigits (List.mem_of_mem_take h)
  · exact fun h => hdigits (List.mem_of_mem_take h)

end Sitewright
