import Sitewright.Text.Basic
/-!
# Line ends

A file read as text has its line ends normalised: a carriage return, with or without a line feed
after it, becomes one line feed.

Main statement: a normalised text holds no carriage return (`not_mem_normalize`).
-/
set_option autoImplicit false

namespace Sitewright.Newline

/-- The loop of the normalisation; `out` is the text so far, in reverse, and `afterReturn` says that
a carriage return has just been turned into a line feed. -/
def normalizeFrom (out : Text) (afterReturn : Bool) : Text → Text
  | [] => out.reverse
  | c :: s =>
    if c = '\r' then normalizeFrom ('\n' :: out) true s
    else if c = '\n' && afterReturn then normalizeFrom out false s
    else normalizeFrom (c :: out) false s

/-- The text with every line end written as one line feed. -/
def normalize (s : Text) : Text := normalizeFrom [] false s

theorem not_mem_normalizeFrom {out s : Text} {b : Bool} (h : '\r' ∉ out) :
    '\r' ∉ normalizeFrom out b s := by
  induction s generalizing out b with
  | nil => simpa [normalizeFrom] using h
  | cons c s ih =>
    rw [normalizeFrom]
    split
    · exact ih (by simp [h])
    · split
      · exact ih h
      · rename_i hc _
        exact ih (by simp [h, Ne.symm hc])

theorem not_mem_normalize (s : Text) : '\r' ∉ normalize s :=
  not_mem_normalizeFrom (by simp)

end Sitewright.Newline
