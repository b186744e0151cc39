import Sitewright.Json.Reader
import Sitewright.Json.Writer
import Sitewright.Proofs.Text.Encoding
/-!
# Strings and whole numbers that are read back

A string is written with escapes for the characters that it may not hold, and, where only ASCII may be used, for those
beyond it, in two units if need be. Whatever the style, reading gives the string back. A whole number is read back if it
has no more digits than are read; what follows it must not be taken for a part of it.

* `Json.Follows`: what may follow a value in a document.

Main statements: `Json.readString_string`, `Json.readPlain_ofInt`.
-/
set_option autoImplicit false

namespace Sitewright

/-! ## Hexadecimal digits -/

namespace Integer

theorem hex_one {n : Nat} (h : n < 16) : hex 1 n = [Nat.digitChar n] := by
  rw [hex, Nat.toDigits_of_lt_base h]
  rfl

theorem hex_succ {width n : Nat} (h : 0 < width) :
    hex (width + 1) n = hex width (n / 16) ++ [Nat.digitChar (n % 16)] := by
  obtain ⟨width, rfl⟩ : ∃ w, width = w + 1 := ⟨width - 1, by omega⟩
  unfold hex
  simp only
  rw [Nat.toDigits_eq_if (n := n) (by decide)]
  split
  · rename_i hn
    rw [Nat.div_eq_of_lt hn, Nat.mod_eq_of_lt hn, Nat.toDigits_of_lt_base (by decide : 0 < 16)]
    simp [List.replicate_succ']
  · simp

theorem hex_four {n : Nat} (h : n < 0x10000) : hex 4 n =
    [Nat.digitChar (n / 16 / 16 / 16), Nat.digitChar (n / 16 / 16 % 16), Nat.digitChar (n / 16 % 16),
      Nat.digitChar (n % 16)] := by
  rw [hex_succ (by decide), hex_succ (by decide), hex_succ (by decide), hex_one (by omega)]
  rfl

end Integer

theorem Text.hexDigit?_digitChar : ∀ d < 16, Text.hexDigit? (Nat.digitChar d) = some d := by decide

namespace Json

open Numeral (isDigit ofDigits readExponent?)

variable {style : Style} {c : Char} {n : Nat} {s : Text}

/-! ## Escapes -/

theorem readUnit?_hex (h : n < 0x10000) (rest : Text) : readUnit? (Integer.hex 4 n ++ rest) = some (n, rest) := by
  have hvalue : ((n / 16 / 16 / 16 * 16 + n / 16 / 16 % 16) * 16 + n / 16 % 16) * 16 + n % 16 = n := by omega
  rw [Integer.hex_four h]
  simp only [List.cons_append, List.nil_append, readUnit?]
  rw [Text.hexDigit?_digitChar _ (by omega), Text.hexDigit?_digitChar _ (by omega),
    Text.hexDigit?_digitChar _ (by omega), Text.hexDigit?_digitChar _ (by omega)]
  simp [hvalue]

theorem readCode?_unit (h : n < 0x10000) (halone : n < 0xD800 ∨ 0xDC00 ≤ n) (rest : Text) :
    readCode? (Integer.hex 4 n ++ rest) = some (charOfUnit n, rest) := by
  have hhalf : ¬ ((decide (0xD800 ≤ n) && decide (n < 0xDC00)) = true) := by
    rw [Bool.and_eq_true, decide_eq_true_eq, decide_eq_true_eq]
    omega
  unfold readCode?
  rw [readUnit?_hex h, Option.bind_eq_bind, Option.bind_some]
  exact if_neg hhalf

theorem readCode?_pair (high low : Nat) (hhigh : 0xD800 ≤ high ∧ high < 0xDC00) (hlow : 0xDC00 ≤ low ∧ low < 0xE000)
    (rest : Text) : readCode? (Integer.hex 4 high ++ ('\\' :: 'u' :: (Integer.hex 4 low ++ rest))) =
      some (Char.ofNat (0x10000 + (high - 0xD800) * 0x400 + (low - 0xDC00)), rest) := by
  unfold readCode?
  rw [readUnit?_hex (by omega)]
  simp only [Option.bind_eq_bind, Option.bind_some]
  rw [if_pos (by simpa using hhigh), readUnit?_hex (by omega)]
  simp [hlow]

theorem charOfUnit_toNat (h : c.toNat < 0x10000) : charOfUnit c.toNat = c := by
  have hvalid := Utf8.toNat_valid c
  unfold charOfUnit
  rw [if_neg (by simp; omega), Char.ofNat_toNat]

/-! ## Reading a string -/

variable {out rest after : Text} {fuel : Nat}

theorem readString_code (h : readCode? s = some (c, after)) :
    readString out (fuel + 1) ('\\' :: 'u' :: s) = readString (c :: out) fuel after := by
  simp [readString, h]

theorem readString_short {e : Char} (h : shortEscape? e = some c) (hcode : e ≠ 'u') :
    readString out (fuel + 1) ('\\' :: e :: rest) = readString (c :: out) fuel rest := by
  simp [readString, h, hcode]

theorem readString_plain (hquote : c ≠ '"') (hslash : c ≠ '\\') (hcontrol : ¬ c.toNat < 0x20) :
    readString out (fuel + 1) (c :: rest) = readString (c :: out) fuel rest := by
  simp [readString, hquote, hslash, hcontrol]

theorem readString_end : readString out (fuel + 1) ('"' :: rest) = .ok (out.reverse, rest) := by
  simp [readString]

theorem unitEscape_append (n : Nat) (rest : Text) :
    unitEscape n ++ rest = '\\' :: 'u' :: (Integer.hex 4 n ++ rest) := by
  rw [unitEscape, List.cons_append, List.cons_append]

theorem codeEscape_of_lt (h : c.toNat < 0x10000) : codeEscape c = unitEscape c.toNat := if_pos h

theorem codeEscape_of_le (h : 0x10000 ≤ c.toNat) : codeEscape c =
    unitEscape (0xD800 + (c.toNat - 0x10000) / 0x400) ++ unitEscape (0xDC00 + (c.toNat - 0x10000) % 0x400) :=
  if_neg (Nat.not_lt.2 h)

/-- The escape of a character by its code point stands for the character. -/
theorem readString_codeEscape :
    readString out (fuel + 1) (codeEscape c ++ rest) = readString (c :: out) fuel rest := by
  have hvalid := Utf8.toNat_valid c
  rcases Nat.lt_or_ge c.toNat 0x10000 with hplane | hplane
  · have hread := readCode?_unit hplane (by omega) rest
    rw [charOfUnit_toNat hplane] at hread
    rw [codeEscape_of_lt hplane, unitEscape_append, readString_code hread]
  · -- the two units go by names from here on, since numbers of their size would be worked out
    obtain ⟨high, hhigh⟩ : ∃ high, high = 0xD800 + (c.toNat - 0x10000) / 0x400 := ⟨_, rfl⟩
    obtain ⟨low, hlow⟩ : ∃ low, low = 0xDC00 + (c.toNat - 0x10000) % 0x400 := ⟨_, rfl⟩
    have hvalue : 0x10000 + (high - 0xD800) * 0x400 + (low - 0xDC00) = c.toNat := by omega
    have hread := readCode?_pair high low (by omega) (by omega) rest
    rw [hvalue, Char.ofNat_toNat] at hread
    rw [codeEscape_of_le hplane, ← hhigh, ← hlow, List.append_assoc, unitEscape_append, unitEscape_append,
      readString_code hread]

/-- Whatever stands for a character in a string is read as the character. -/
theorem readString_char :
    readString out (fuel + 1) (style.char c ++ rest) = readString (c :: out) fuel rest := by
  unfold Style.char
  split_ifs with hquote hslash hline hreturn htab hback hform hcontrol hbeyond
  · rw [hquote]
    exact readString_short (by decide) (by decide)
  · rw [hslash]
    exact readString_short (by decide) (by decide)
  · rw [hline]
    exact readString_short (by decide) (by decide)
  · rw [hreturn]
    exact readString_short (by decide) (by decide)
  · rw [htab]
    exact readString_short (by decide) (by decide)
  · rw [hback]
    exact readString_short (by decide) (by decide)
  · rw [hform]
    exact readString_short (by decide) (by decide)
  · exact readString_codeEscape
  · exact readString_codeEscape
  · exact readString_plain hquote hslash hcontrol

theorem codeEscape_ne_nil : codeEscape c ≠ [] := by
  rcases Nat.lt_or_ge c.toNat 0x10000 with hplane | hplane
  · rw [codeEscape_of_lt hplane]
    exact List.cons_ne_nil _ _
  · rw [codeEscape_of_le hplane]
    exact List.append_ne_nil_of_left_ne_nil (List.cons_ne_nil _ _) _

theorem char_ne_nil (style : Style) (c : Char) : style.char c ≠ [] := by
  unfold Style.char
  split_ifs <;> first | exact List.cons_ne_nil _ _ | exact codeEscape_ne_nil

theorem length_le_flatMap_char (style : Style) (s : Text) : s.length ≤ (s.flatMap style.char).length := by
  induction s with
  | nil => exact Nat.le_refl _
  | cons c s ih =>
    have hpos := List.length_pos_of_ne_nil (char_ne_nil style c)
    rw [List.flatMap_cons, List.length_append, List.length_cons]
    omega

theorem readString_append (h : s.length < fuel) :
    readString out fuel (s.flatMap style.char ++ '"' :: rest) = .ok (out.reverse ++ s, rest) := by
  induction s generalizing out fuel with
  | nil =>
    obtain ⟨fuel, rfl⟩ : ∃ k, fuel = k + 1 := ⟨fuel - 1, by omega⟩
    rw [List.flatMap_nil, List.nil_append, readString_end, List.append_nil]
  | cons c s ih =>
    obtain ⟨fuel, rfl⟩ : ∃ k, fuel = k + 1 := ⟨fuel - 1, by omega⟩
    rw [List.flatMap_cons, List.append_assoc, readString_char, ih (Nat.lt_of_succ_lt_succ h), List.reverse_cons,
      List.append_assoc, List.singleton_append]

theorem string_append (s rest : Text) : style.string s ++ rest = '"' :: (s.flatMap style.char ++ '"' :: rest) := by
  simp [Style.string]

/-- A string is read back from behind its opening quote. -/
theorem readString_string (style : Style) (h : (style.string s).length ≤ fuel) :
    readString [] fuel (s.flatMap style.char ++ '"' :: rest) = .ok (s, rest) := by
  have hlen := length_le_flatMap_char style s
  have hstring : (style.string s).length = (s.flatMap style.char).length + 2 := by simp [Style.string]
  rw [readString_append (by omega), List.reverse_nil, List.nil_append]

/-! ## Whole numbers -/

/-- What may follow a value: nothing, or what parts it from the next one or ends the list that it stands in. -/
def Follows : Text → Prop
  | [] => True
  | c :: _ => c = ',' ∨ c = ']' ∨ c = '\x7d'

theorem follows_comma (s : Text) : Follows (',' :: s) := Or.inl rfl

theorem follows_bracket (s : Text) : Follows (']' :: s) := Or.inr (Or.inl rfl)

theorem follows_brace (s : Text) : Follows ('\x7d' :: s) := Or.inr (Or.inr rfl)

theorem Follows.notDigit {t : Text} (h : Follows (c :: t)) : isDigit c = false := by
  rcases h with rfl | rfl | rfl <;> decide

theorem readFraction?_of_follows (h : Follows rest) : readFraction? rest = none := by
  cases rest with
  | nil => rfl
  | cons c t => rcases h with rfl | rfl | rfl <;> rfl

theorem readExponent?_of_follows (h : Follows rest) : readExponent? rest = none := by
  cases rest with
  | nil => rfl
  | cons c t => rcases h with rfl | rfl | rfl <;> rfl

theorem isDigit_of_mem_ofNat (h : c ∈ Integer.ofNat n) : isDigit c = true := by
  have hdigit := Nat.isDigit_of_mem_toDigits (by decide) (by decide) h
  simp only [Char.isDigit, Bool.and_eq_true, decide_eq_true_eq, UInt32.le_iff_toNat_le, ge_iff_le] at hdigit
  rw [isDigit, Bool.and_eq_true, decide_eq_true_eq, decide_eq_true_eq]
  exact hdigit

theorem ofDigits_ofNat (n : Nat) : ofDigits (Integer.ofNat n) = n := Nat.ofDigitChars_ten_toDigits

theorem ofNat_ne_nil : Integer.ofNat n ≠ [] := Nat.toDigits_ne_nil

theorem head?_ofNat (h : n ≠ 0) : (Integer.ofNat n).head? ≠ some '0' := by
  induction n using Nat.strongRecOn with
  | ind n ih =>
    unfold Integer.ofNat at ih ⊢
    rw [Nat.toDigits_eq_if (by decide)]
    split
    · rename_i hsmall
      have hzero : ∀ d < 10, d ≠ 0 → [Nat.digitChar d].head? ≠ some '0' := by decide
      exact hzero n hsmall h
    · rename_i hlarge
      have hfront := ih (n / 10) (by omega) (by omega)
      rwa [List.head?_append_of_ne_nil _ Nat.toDigits_ne_nil]

theorem eq_zero_of_head {t : Text} (h : Integer.ofNat n ++ rest = '0' :: t) : n = 0 := by
  by_contra hn
  have hhead := head?_ofNat hn
  rw [← List.head?_append_of_ne_nil _ ofNat_ne_nil, h] at hhead
  exact hhead rfl

theorem takeWhile_ofNat (h : Follows rest) : (Integer.ofNat n ++ rest).takeWhile isDigit = Integer.ofNat n := by
  rw [List.takeWhile_append_of_pos fun c hc => isDigit_of_mem_ofNat hc]
  cases rest with
  | nil => rw [List.takeWhile_nil, List.append_nil]
  | cons c t => rw [List.takeWhile_cons, h.notDigit, if_neg Bool.false_ne_true, List.append_nil]

/-- A whole number is read from its digits, if they are not too many. -/
theorem readMagnitude_ofNat (hrest : Follows rest) (hshort : (Integer.ofNat n).length ≤ Integer.digitLimit)
    (negative : Bool) : readMagnitude negative (Integer.ofNat n ++ rest) =
      .ok (.int (if negative then -(n : Int) else n), rest) := by
  unfold readMagnitude
  simp only
  split
  · -- a zero in front is all that is taken, so it must be the whole number
    rename_i heq
    obtain rfl := eq_zero_of_head heq
    have hzero : (Integer.ofNat 0 ++ rest).drop ['0'].length = rest := rfl
    rw [hzero, readFraction?_of_follows hrest]
    simp [readExponent?_of_follows hrest, Integer.digitLimit, ofDigits]
  · rw [takeWhile_ofNat hrest, List.drop_left, readFraction?_of_follows hrest]
    simp [readExponent?_of_follows hrest, ofNat_ne_nil, hshort, ofDigits_ofNat]

theorem words_of_digit (h : isDigit c = true) (s : Text) :
    (∀ w ∈ words, Text.after? w.1 (c :: s) = none) ∧ ∀ w ∈ words, Text.after? w.1 ('-' :: c :: s) = none := by
  have hletter : ∀ d, isDigit d = false → d ≠ c := fun d hd hdc => by
    rw [hdc, h] at hd
    exact Bool.noConfusion hd
  constructor
  · simp [words, Text.after?, hletter 'n' rfl, hletter 't' rfl, hletter 'f' rfl, hletter 'N' rfl, hletter 'I' rfl,
      hletter '-' rfl]
  · simp [words, Text.after?, hletter 'I' rfl]

theorem readPlain_of_digit (h : isDigit c = true) (s : Text) :
    readPlain (c :: s) = readMagnitude false (c :: s) ∧ readPlain ('-' :: c :: s) = readMagnitude true (c :: s) := by
  obtain ⟨hplain, hminus⟩ := words_of_digit h s
  have hc : c ≠ '-' := by
    rintro rfl
    exact absurd h (by decide)
  constructor
  · unfold readPlain
    rw [List.findSome?_eq_none_iff.2 fun w hw => by rw [hplain w hw, Option.map_none]]
    simp [hc]
  · unfold readPlain
    rw [List.findSome?_eq_none_iff.2 fun w hw => by rw [hminus w hw, Option.map_none]]
    rfl

/-- A whole number is read back, if it has no more digits than are read. -/
theorem readPlain_ofInt {z : Int} (hrest : Follows rest)
    (hshort : (Integer.ofNat z.natAbs).length ≤ Integer.digitLimit) :
    readPlain (Integer.ofInt z ++ rest) = .ok (.int z, rest) := by
  obtain ⟨c, digits, hdigits⟩ := List.exists_cons_of_ne_nil (ofNat_ne_nil (n := z.natAbs))
  have hc : isDigit c = true := isDigit_of_mem_ofNat (n := z.natAbs) (hdigits ▸ List.mem_cons_self)
  obtain ⟨hplain, hminus⟩ := readPlain_of_digit hc (digits ++ rest)
  have hread := readMagnitude_ofNat hrest hshort
  rw [hdigits, List.cons_append] at hread
  cases z with
  | ofNat n =>
    change Integer.ofNat n = c :: digits at hdigits
    rw [Integer.ofInt, hdigits, List.cons_append, hplain, hread]
    rfl
  | negSucc n =>
    change Integer.ofNat (n + 1) = c :: digits at hdigits
    rw [Integer.ofInt, hdigits, List.cons_append, List.cons_append, hminus, hread]
    rfl

end Json
end Sitewright
