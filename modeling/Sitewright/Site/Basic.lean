import Sitewright.File.Path
/-!
# Sites

A site says where a project keeps what: its pages, its layout, its components, its variables, and
where a build puts its results. All names are relative to the root of the project.
-/
set_option autoImplicit false

namespace Sitewright

/-- The address that a site is deployed under. It is needed only where pages are published, so until then
it may be of another type, whose name is kept. -/
inductive BaseAddress where
  | text (s : Text)
  | ofType (typeName : Text)
deriving DecidableEq, Repr

/-- The conventions of a project. -/
structure Site where
  /-- The root of the project, an absolute path. -/
  root : Path
  pagesDir : Text
  pageFile : Text
  pageScript : Text
  homePage : Text
  rootRoute : Text
  layoutPath : Text
  componentsDir : Text
  componentNamespace : Text
  componentMarkup : Text
  componentStylesheet : Text
  componentScript : Text
  variablesPath : Text
  tmpDir : Text
  outDir : Text
  publicDir : Text
  globalStylesheet : Text
  globalStyleName : Text
  staticDirs : List Text
  reloadExtensions : List Text
  baseUrl : BaseAddress
  bundler : Text
  bundleCommand : Option Text
deriving DecidableEq, Repr

namespace Site

/-- The directory that holds a directory for each page. -/
def pagesRoot (site : Site) : Path := site.root.join site.pagesDir

def layoutFile (site : Site) : Path := site.root.join site.layoutPath

def variablesFile (site : Site) : Path := site.root.join site.variablesPath

/-- The directory of pages between assembly and bundling. -/
def tmpRoot (site : Site) : Path := site.root.join site.tmpDir

def outRoot (site : Site) : Path := site.root.join site.outDir

def bundledRoot (site : Site) : Path := site.outRoot.join site.tmpDir

/-- The directory of public files, which are part of every build as they are. -/
def publicRoot (site : Site) : Path := site.root.join site.publicDir

def globalSource (site : Site) : Path := site.root.join site.globalStylesheet

def globalStyleFile (site : Site) : Text := site.globalStyleName ++ ".css".toList

def componentRoot (site : Site) (token : Text) : Path :=
  (site.root.join site.componentsDir).join token

def componentUrl (site : Site) (token file : Text) : Text :=
  '/' :: site.componentsDir ++ '/' :: token ++ '/' :: file

def pageUrl (site : Site) (page : Text) : Text :=
  '/' :: site.pagesDir ++ '/' :: page ++ ['/']

end Site
end Sitewright
