import Sitewright.Component.Basic
/-!
# Putting components into a page

Every reference is replaced by the component's markup, in which references are replaced in turn and
variables rendered. A reference to a missing component is dropped with a notice; a component that
includes itself, directly or through others, is a failure. The tags of all components used are added
to the head, in the order of their first use.
-/
set_option autoImplicit false

namespace Sitewright.Component

/-- What has been met so far: the components used, in the order of their first use, and the markup
of each token, none where it has no component. -/
structure Injection where
  used : List Component
  markup : Keyed (Option Text)

abbrev Injecting := StateT Injection Reading

/-- The markup of a token. It is read once. -/
def markupOf (site : Site) (token : Text) : Injecting (Option Text) := do
  match Keyed.get? token (← get).markup with
  | some known => return known
  | none =>
    let text ← match ← (load site token : Reading _) with
      | none =>
        (Reading.note .warning ("Component ".toList ++ token ++
          " not found, dropping placeholder".toList) : Reading _)
        pure none
      | some c =>
        match ← (markupText c : Reading _) with
        | none => pure none
        | some s =>
          modify fun i => { i with used := i.used ++ [c] }
          pure (some s)
    modify fun i => { i with markup := Keyed.put token text i.markup }
    return text

/-- The text with every reference replaced. `stack` holds the tokens that the text belongs to, the
outermost first; `depth` bounds how many more there can be. -/
def expand (site : Site) (tree : Variables) : Nat → List Text → Text → Injecting Text
  | 0, stack, _ => throw (.componentCycle stack)
  | depth + 1, stack, s =>
    Scan.substituteM (reference site.componentNamespace) (fun raw _ => do
      let token := Text.trim raw
      if List.elem token stack then throw (.componentCycle (stack ++ [token]))
      match ← markupOf site token with
      | none => return []
      | some markup =>
        let inner ← expand site tree depth (stack ++ [token]) markup
        let rendered ← (Reading.ofExcept .badIndex (Variable.render inner tree) : Reading _)
        return Text.trim rendered) s

/-- The page with every component put into it, and its head with their tags. -/
def inject (site : Site) (tree : Variables) (page : Text) : Reading Text := do
  let depth ← nestingBound page
  let (expanded, injection) ← (expand site tree depth [] page).run ⟨[], []⟩
  return (injection.used.flatMap (headTags site)).foldl Html.appendToHead expanded

end Sitewright.Component
