import Sitewright.Component.Basic
/-!
# The components of a page

The distinct components that a page refers to, directly or through other components, depth first in
the order of their first reference. Cycles do no harm: a token is followed once.
-/
set_option autoImplicit false

namespace Sitewright.Component

/-- What a walk has met: every token, and the components found, in order. -/
structure Walked where
  seen : List Text
  found : List Component

/-- Follows the references of a text; `depth` bounds how deep. -/
def follow (site : Site) : Nat → Text → StateT Walked Reading Unit
  | 0, _ => pure ()
  | depth + 1, s =>
    (tokens site s).forM fun token => do
      if List.elem token (← get).seen then return ()
      modify fun w => { w with seen := token :: w.seen }
      match ← (load site token : Reading _) with
      | none => return ()
      | some c =>
        modify fun w => { w with found := w.found ++ [c] }
        match ← (markupText c : Reading _) with
        | none => return ()
        | some markup => follow site depth markup

def collect (site : Site) (page : Text) : Reading (List Component) := do
  let depth ← nestingBound page
  let (_, walked) ← (follow site depth page).run ⟨[], []⟩
  return walked.found

end Sitewright.Component
