import Sitewright.Component.Injection
import Sitewright.Layout
import Sitewright.Page
/-!
# Assembling pages

A page is assembled from its fragment in five passes: repeats are expanded, the layout is put around,
components are put in, repeats that came with the components are expanded, and variables that came
with the layout or the components are rendered.
-/
set_option autoImplicit false

namespace Sitewright.Assembly

def expandRepeats (s : Text) : Reading Text := Reading.ofExcept .overflow (Repeat.expand s)

def renderVariables (tree : Variables) (s : Text) : Reading Text :=
  Reading.ofExcept .badIndex (Variable.render s tree)

def assemble (site : Site) (tree : Variables) (page : Text) (strict : Bool) (fragment : Text) :
    Reading Text := do
  let html ← expandRepeats fragment
  let html ← Layout.compose site page strict html
  let html ← Component.inject site tree html
  let html ← expandRepeats html
  renderVariables tree html

/-- The document of a page, whose fragment is read. -/
def assembleFile (site : Site) (tree : Variables) (page : Page) (strict : Bool) : Reading Text := do
  let fragment ← Reading.textOf page.fragment
  assemble site tree page.name strict fragment

end Sitewright.Assembly
