import Sitewright.Build.Address
import Sitewright.Build.Bundler
import Sitewright.Digest.Sha256
/-!
# The copying bundler

Scripts and stylesheets that the pages refer to by rooted addresses are copied under names that hold
a fingerprint of their contents, and the references are replaced. Public files and the shared
stylesheet are copied as they are. Nothing is compiled.
-/
set_option autoImplicit false

namespace Sitewright.Build

def bundledSuffixes : List Text :=
  [".js".toList, ".mjs".toList, ".css".toList, ".ts".toList, ".scss".toList]

/-- The name of a bundled file: its stem, the fingerprint of its contents, and its suffix. -/
def bundledName (source : Path) (bytes : Bytes) : Text :=
  source.stem ++ '-' :: Sha256.fingerprint bytes Sha256.nameDigits ++ source.suffix

/-- What has been copied so far: the names of the bundled files by source, and all assets in the order
of their making. -/
structure Copied where
  names : List (Path × Text)
  assets : List Path

abbrev Copying := StateT Copied Job

/-- The bundled name of a source, if it has been copied. -/
def Copied.nameOf? (c : Copied) (source : Path) : Option Text :=
  (c.names.find? fun item => decide (item.1 = source)).map Prod.snd

def sourceOf (site : Site) (address : Text) : Path :=
  site.root.join (address.dropWhile (· = '/'))

/-- The name that a source is bundled under. It is copied when it is first asked for. -/
def bundleSource (assetsDir source : Path) : Copying Text := do
  match (← get).nameOf? source with
  | some name => return name
  | none =>
    let bytes ← (Job.ask (·.readBytes source) : Job Bytes)
    let name := bundledName source bytes
    let target := assetsDir.join name
    (Job.change (·.writeBytes target bytes) : Job Unit)
    modify fun c => ⟨(source, name) :: c.names, c.assets ++ [target]⟩
    return name

/-- The text that takes the place of a reference to a bundled file. -/
def bundledReference (attr name : Text) : Text :=
  attr ++ "=\"./assets/".toList ++ name ++ ['"']

/-- The text that takes the place of a rooted reference: the reference to the bundled file where the
address stands for a file that is bundled, the reference itself otherwise. -/
def replaceReference (site : Site) (assetsDir : Path) (found : RootedReference) (source : Text) :
    Copying Text := do
  let file := sourceOf site found.address
  if List.elem file.suffix bundledSuffixes then
    if ← (Job.ask (·.isFile file) : Job Bool) then
      let name ← bundleSource assetsDir file
      return bundledReference found.attr name
    else return source
  else return source

def bundlePages (site : Site) (assetsDir : Path) : Keyed Path → Keyed Path → Copying (Keyed Path)
  | [], made => return made
  | (route, file) :: rest, made => do
    let html ← (Job.textOf file : Job Text)
    let html ← Scan.substituteM rootedReference (replaceReference site assetsDir) html
    let target := pageFile site.bundledRoot route
    (Job.writeText target html : Job Unit)
    bundlePages site assetsDir rest (Keyed.put route target made)

/-- Copies the public directory into the output directory, if there is one. -/
def copyPublic (site : Site) : Job Unit := do
  if ← Job.ask (·.isDirectory site.publicRoot) then
    let w ← get
    let (disk, result) := w.disk.copyTree site.publicRoot site.outRoot
    set { w with disk := disk }
    match result with
    | .ok () => return ()
    | .error (.file e) => throw (.file e)
    | .error (.notes notes) => throw (.copy notes)

/-- Copies the shared stylesheet, if it needs no compiling; tells the assets made. -/
def copyGlobalStyle (site : Site) (assetsDir : Path) : Job (List Path) := do
  let source := site.globalSource
  let copyable ←
    if source.suffix = ".css".toList then Job.ask (·.isFile source) else pure false
  if copyable then
    let target := assetsDir.join site.globalStyleFile
    if (← get).disk.sameEntry source target then
      throw (.sameFile source.toText target.toText)
    Job.change (·.copyBytes source target)
    return [target]
  else
    if ← Job.ask (·.exists? source) then
      Job.note .warning ("Global stylesheet ".toList ++ source.toText ++
        " needs a preprocessor; not copied".toList)
    return []

def bundleByCopying (site : Site) (artifacts : Artifacts) : Job Bundled := do
  let assetsDir := site.outRoot.join "assets".toList
  Job.changeBySteps (·.ensureDirectories assetsDir)
  Job.changeBySteps (·.ensureDirectories site.bundledRoot)
  copyPublic site
  let styles ← copyGlobalStyle site assetsDir
  let (pages, copied) ← (bundlePages site assetsDir artifacts.pages []).run ⟨[], styles⟩
  return ⟨"copy".toList, pages, copied.assets⟩

def copyBundler : Bundler := ⟨"copy".toList, bundleByCopying⟩

end Sitewright.Build
