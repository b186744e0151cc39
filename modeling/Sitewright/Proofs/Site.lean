import Mathlib
import Sitewright.Site.Settings
/-!
# The usual site

The site of a project that sets nothing, written out.

Main statement: the default settings give it (`Settings.site_default`).
-/
set_option autoImplicit false

namespace Sitewright

def Site.usual (root : Path) : Site where
  root := root
  pagesDir := "src/app".toList
  pageFile := "page.html".toList
  pageScript := "main.ts".toList
  homePage := "home".toList
  rootRoute := "index".toList
  layoutPath := "src/app/layout.html".toList
  componentsDir := "src".toList
  componentNamespace := "common".toList
  componentMarkup := "index.html".toList
  componentStylesheet := "style.scss".toList
  componentScript := "script.ts".toList
  variablesPath := "src/constants/index.json".toList
  tmpDir := "pages".toList
  outDir := "dist".toList
  publicDir := "public".toList
  globalStylesheet := "src/styles/global.scss".toList
  globalStyleName := "global-style".toList
  staticDirs := ["assets".toList, "imgs".toList, "fonts".toList]
  reloadExtensions := [".html".toList, ".scss".toList, ".ts".toList]
  baseUrl := .text []
  bundler := "copy".toList
  bundleCommand := none

theorem Settings.site_default (root : Path) : Settings.default.site root = .ok (Site.usual root) := by
  cbv

end Sitewright
