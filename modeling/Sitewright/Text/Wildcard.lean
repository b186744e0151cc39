import Sitewright.Text.Basic
/-!
# Wildcard patterns

A pattern is a sequence of parts: a character stands for itself, a star for any stretch of
characters, a question mark for any one character. A name matches when the whole of it does.
-/
set_option autoImplicit false

namespace Sitewright.Wildcard

/-- A part of a pattern. -/
inductive Part where
  | exact (c : Char)
  | anyOne
  | anyRun
  | oneOf (among : Char → Bool)

def fits : List Part → Text → Bool
  | [], [] => true
  | [], _ :: _ => false
  | .anyRun :: parts, [] => fits parts []
  | .anyRun :: parts, c :: s => fits parts (c :: s) || fits (.anyRun :: parts) s
  | .exact _ :: _, [] => false
  | .exact a :: parts, c :: s => a == c && fits parts s
  | .anyOne :: _, [] => false
  | .anyOne :: parts, _ :: s => fits parts s
  | .oneOf _ :: _, [] => false
  | .oneOf among :: parts, c :: s => among c && fits parts s
termination_by parts s => (parts.length, s.length)

/-- The pattern of a text in which a star is a wildcard and all else stands for itself. -/
def ofText (s : Text) : List Part := s.map fun c => if c = '*' then .anyRun else .exact c

end Sitewright.Wildcard
