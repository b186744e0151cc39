import Sitewright.Text.Basic
/-!
# Blank characters

The characters that count as blank between and around the words of a text: the twenty-five of the
Unicode property White_Space and the four separators U+001C to U+001F. Texts are trimmed and
markers are matched with this class.
-/
set_option autoImplicit false

namespace Sitewright

/-- A class of characters, given by the inclusive ranges of its code points in ascending order. -/
abbrev CharRanges := List (Nat × Nat)

def CharRanges.has (ranges : CharRanges) (c : Char) : Bool :=
  ranges.any fun r => decide (r.1 ≤ c.toNat) && decide (c.toNat ≤ r.2)

namespace Text

def blankRanges : CharRanges :=
  [(0x9, 0xd), (0x1c, 0x20), (0x85, 0x85), (0xa0, 0xa0), (0x1680, 0x1680), (0x2000, 0x200a),
    (0x2028, 0x2029), (0x202f, 0x202f), (0x205f, 0x205f), (0x3000, 0x3000)]

def isBlank (c : Char) : Bool := blankRanges.has c

def trim (s : Text) : Text := trimBoth isBlank s

theorem isBlank_of_isWhitespace {c : Char} (h : c.isWhitespace = true) : isBlank c = true := by
  simp only [Char.isWhitespace, Bool.or_eq_true, decide_eq_true_eq] at h
  rcases h with ((rfl | rfl) | rfl) | rfl <;> decide

end Text
end Sitewright
