import Sitewright.Proofs.Build.Bundling
/-!
# The documents of the pages

A page that refers to nothing in the directories that a build works in is assembled during a build as it is in the
project before the build: neither the emptying of the output directory nor the documents and script entries of other
pages are seen by it. Its document stays in the temporary directory until it is bundled.

* `Refrains`: a page that refers to nothing in the directories that a build works in.
* `Materialized`: what is there of a page once it has been materialised.

Main statement: `Emptied.materializeSite`.
-/
set_option autoImplicit false

namespace Sitewright.Build

open Disk (Changes Ground AlikeOutside Spares spares_nowhere)
open Job (outcome Keeps)
open Reading (textIn)
open Component (Reaches)

/-- The directories that a build works in, with all that is below them. -/
def Workplace (site : Site) (home : Location) : Location → Prop := Beneath home (outputNames site)

/-- No file of a component is looked for in a class of locations. -/
def ComponentOutside (site : Site) (T : Location → Prop) (token : Text) : Prop :=
  ∀ file ∈ [site.componentMarkup, site.componentStylesheet, site.componentScript],
    ¬ ((site.componentRoot token).join file).Enters T

/-- The script entry of a page, whose fragment is read. -/
def entryOf (site : Site) (page : Page) : Reading Text := do
  let fragment ← Reading.textOf page.fragment
  entryScript site fragment

/-- A page of a project refers to nothing in the directories that a build works in: no component that is reached from
its fragment or from its document is looked for there, and no reference of the assembled page leads there. -/
structure Refrains (site : Site) (home : Location) (tree : Variables) (d : Disk) (page : Page) : Prop where
  parts : ∀ fragment, textIn d page.fragment = .ok fragment → ∀ t, Reaches site d fragment t →
    ComponentOutside site (Workplace site home) t
  components : ∀ fragment, textIn d page.fragment = .ok fragment → ∀ document,
    ((Assembly.composed site page.name true fragment).outcome d []).1 = .ok document →
      ∀ t, Reaches site d document t → ComponentOutside site (Workplace site home) t
  references : ∀ html, ((Assembly.assembleFile site tree page true).outcome d []).1 = .ok html →
    RefersOutside site (Workplace site home) (Newline.normalize html)

variable {site : Site} {home loc : Location} {d d' d₀ now now' : Disk} {T S : Location → Prop} {page : Page}
  {tree : Variables} {fragment html : Text} {l : Log} {w w' : Workspace}

/-! ## Readings that do not go inside -/

def fragmentAt (site : Site) (home : Location) (page : Page) : Location :=
  appRoot home ++ [page.name] ++ [site.pageFile]

theorem fragment_of_found (hsite : Usual site home) (hground : Ground home d₀) (hfound : Page.Found site d₀ page) :
    page.fragment = .ofLocation (fragmentAt site home page) ∧ PlainNames (fragmentAt site home page) := by
  obtain ⟨names, hlist, hmem⟩ := hfound.listed
  have hname := Disk.plain_of_list hground.sound hlist _ hmem
  refine ⟨hfound.fragment.trans (hsite.file_eq hname hsite.plain_pageFile), ?_⟩
  exact ((Usual.plainNames_appRoot hground.plain).child hname).child hsite.plain_pageFile

section

variable (hsite : Usual site home) (h : AlikeOutside (Workplace site home) S d d')
include hsite h

theorem readBytes_sources (hloc : PlainNames loc) {rest : List Text} (hrest : loc = appRoot home ++ rest)
    (hS : ¬ S loc) : d'.readBytes (.ofLocation loc) = d.readBytes (.ofLocation loc) := by
  refine h.readBytes_eq (by simp [Path.ofLocation]) not_beneath_nil ?_ ?_
  · refine Path.not_enters_ofLocation hloc ?_
    rw [hrest]
    exact hsite.spares_outputs rest
  · rw [Path.resolve_plain hloc]
    exact hS

theorem textIn_fragment_outside (hground : Ground home d₀) (hfound : Page.Found site d₀ page)
    (hS : ¬ S (fragmentAt site home page)) : textIn d' page.fragment = textIn d page.fragment := by
  obtain ⟨hfragment, hplain⟩ := fragment_of_found hsite hground hfound
  have hrest : fragmentAt site home page = appRoot home ++ [page.name, site.pageFile] := by simp [fragmentAt]
  rw [hfragment]
  exact Reading.textIn_congr (readBytes_sources hsite h hplain hrest hS)

variable (hends : EndsIn (pageNames site) S)
include hends

theorem readBytes_component {name token : Text} (hmem : name ∈ [site.componentMarkup, site.componentScript])
    (hout : ComponentOutside site (Workplace site home) token) :
    d'.readBytes ((site.componentRoot token).join name) = d.readBytes ((site.componentRoot token).join name) := by
  have hunread : Path.FileName name ∧ name ∉ pageNames site := by
    rcases List.mem_pair.1 hmem with rfl | rfl
    · exact hsite.markup_unread
    · exact hsite.script_unread
  have hfile : name ∈ [site.componentMarkup, site.componentStylesheet, site.componentScript] := by
    rcases List.mem_pair.1 hmem with rfl | rfl <;> simp
  refine h.readBytes_eq ?_ not_beneath_nil (hout name hfile) fun hc => ?_
  · exact Path.anchor_join (Path.anchor_join (Path.anchor_join hsite.placed.absolute_root _) _) _
  · rw [Path.resolve_join hunread.1] at hc
    exact not_of_endsIn hends hunread.2 _ hc

theorem agree_outside {token : Text} (hout : ComponentOutside site (Workplace site home) token) :
    Component.Agree site d d' token := by
  refine Component.agree_of_files (fun file hfile => ?_) fun bytes hbytes => ?_
  · refine h.isFile_eq ?_ not_beneath_nil (hout file hfile)
    exact Path.anchor_join (Path.anchor_join (Path.anchor_join hsite.placed.absolute_root _) _) _
  · rw [readBytes_component hsite h hends List.mem_cons_self hout, hbytes]

theorem entryScript_outside (hparts : ∀ t, Reaches site d fragment t → ComponentOutside site (Workplace site home) t)
    (l : Log) : ((entryScript site fragment).outcome d' l).1 = ((entryScript site fragment).outcome d []).1 := by
  have hsame : (entryScript site fragment).outcome d' l = (entryScript site fragment).outcome d l := by
    refine entryScript_agree (fun t ht => agree_outside hsite h hends (hparts t ht)) (fun t ht c hc path hpath => ?_) l
    rw [Component.script_of_found hc hpath]
    exact Reading.textIn_congr (readBytes_component hsite h hends (by simp) (hparts t ht))
  rw [hsame, silent_entryScript site fragment d l]

theorem assemble_outside (hhome : PlainNames home)
    (hcomponents : ∀ document, ((Assembly.composed site page.name true fragment).outcome d []).1 = .ok document →
      ∀ t, Reaches site d document t → ComponentOutside site (Workplace site home) t)
    (hrun : ((Assembly.assemble site tree page.name true fragment).outcome d' l).1 = .ok html) :
    ((Assembly.assemble site tree page.name true fragment).outcome d []).1 = .ok html := by
  have hlayout : textIn d' site.layoutFile = textIn d site.layoutFile := by
    obtain ⟨hname, hne⟩ := hsite.layout_unread
    have hplain : Path.PlainName "layout.html".toList := by decide
    have hfile : site.layoutFile = .ofLocation (appRoot home ++ ["layout.html".toList]) := by
      rw [hsite.layoutFile_eq, hsite.pagesRoot_eq, hname.join_eq]
      rfl
    rw [hfile]
    refine Reading.textIn_congr (readBytes_sources hsite h ?_ rfl (not_of_endsIn hends hne _))
    exact (Usual.plainNames_appRoot hhome).child hplain
  rw [Assembly.assemble_agree hlayout l fun document hdocument t ht =>
    agree_outside hsite h hends (hcomponents document (Assembly.composed_ok_of_log hdocument []) t ht)] at hrun
  exact Assembly.assemble_ok_of_log hrun []

end

theorem assembleFile_ok (hfragment : textIn d page.fragment = .ok fragment)
    (h : ((Assembly.assemble site tree page.name true fragment).outcome d []).1 = .ok html) :
    ((Assembly.assembleFile site tree page true).outcome d []).1 = .ok html := by
  unfold Assembly.assembleFile
  rw [Reading.outcome_bind, Reading.outcome_textOf, hfragment]
  exact h

theorem entryOf_ok {script : Text} (hfragment : textIn d page.fragment = .ok fragment)
    (h : ((entryScript site fragment).outcome d []).1 = .ok script) :
    ((entryOf site page).outcome d []).1 = .ok script := by
  unfold entryOf
  rw [Reading.outcome_bind, Reading.outcome_textOf, hfragment]
  exact h

/-! ## One page -/

def fileOf (route : Text) : Text := route ++ ".html".toList

/-- Where the document of a route stands until it is bundled. -/
def documentAt (site : Site) (home : Location) (route : Text) : Location := home ++ [site.tmpDir] ++ [fileOf route]

theorem pageFile_eq {route : Text} (hroute : Path.FileName route) (dir : Path) :
    pageFile dir route = dir.child (fileOf route) := by
  have hname : Path.FileName (route ++ ".html".toList) := hroute.append (by decide) (by decide)
  exact hname.join_eq dir

theorem pageFile_tmpRoot (hsite : Usual site home) {route : Text} (hroute : Path.FileName route) :
    pageFile site.tmpRoot route = .ofLocation (documentAt site home route) := by
  rw [pageFile_eq hroute, hsite.placed.tmpRoot_eq]
  rfl

/-- What a page that has been materialised has left: its name can be written, its document is what the project gives,
and so is its script entry. -/
structure Materialized (site : Site) (home : Location) (tree : Variables) (d : Disk) (page : Page) (now : Disk) :
    Prop where
  name : Path.PlainName (fileOf page.route)
  document : Refrains site home tree d page → ∃ html,
    ((Assembly.assembleFile site tree page true).outcome d []).1 = .ok html ∧
      now.readBytes (.ofLocation (documentAt site home page.route)) = .ok (Utf8.encode html)
  entry : Refrains site home tree d page → ∀ path ∈ page.script, ∃ script,
    ((entryOf site page).outcome d []).1 = .ok script ∧ now.readBytes path = .ok (Utf8.encode script)

theorem PlainNames.documentAt (hsite : Usual site home) (hhome : PlainNames home) {route : Text}
    (hname : Path.PlainName (fileOf route)) : PlainNames (documentAt site home route) :=
  (hhome.child hsite.plain_tmpDir).child hname

theorem plain_of_writeBytes {dir : Location} {name : Text} (hname : Path.FileName name) {bytes : Bytes}
    (h : d.writeBytes (.ofLocation (dir ++ [name])) bytes = .ok d') : Path.PlainName name := by
  refine hname.plainName fun hnul => ?_
  have hpath : (Path.ofLocation (dir ++ [name])).hasNul = true :=
    Path.hasNul_iff.2 ⟨name, List.mem_append_right _ (List.mem_singleton_self _), hnul⟩
  rw [Disk.writeBytes_of_hasNul hpath] at h
  cases h

theorem Materialized.of_changes (h : Materialized site home tree d page now) (hsite : Usual site home)
    (hground : Ground home d₀) (hfound : Page.Found site d₀ page) (hd : Changes T S now now')
    (hT : Spares T (documentAt site home page.route)) (hS : Spares S (documentAt site home page.route))
    (hT' : Spares T (scriptOf site home page)) (hS' : Spares S (scriptOf site home page)) :
    Materialized site home tree d page now' := by
  refine ⟨h.name, fun hrefrains => ?_, fun hrefrains path hpath => ?_⟩
  · obtain ⟨html, hhtml, hread⟩ := h.document hrefrains
    refine ⟨html, hhtml, ?_⟩
    rw [hd.readBytes_eq (PlainNames.documentAt hsite hground.plain h.name) hT hS, hread]
  · obtain ⟨script, hscript, hread⟩ := h.entry hrefrains path hpath
    obtain ⟨rfl, hplain, -⟩ := script_of_found hsite hground hfound hpath
    refine ⟨script, hscript, ?_⟩
    rw [hd.readBytes_eq hplain hT' hS', hread]

theorem exists_of_materializePage {files : Path × Option Path}
    (h : outcome (materializePage site tree page) w = (.ok files, w')) : ∃ fragment entry w₁ html,
      textIn w.disk page.fragment = .ok fragment ∧ outcome (writeEntry site page fragment) w = (.ok entry, w₁) ∧
      ((Assembly.assemble site tree page.name true fragment).outcome w₁.disk w₁.log).1 = .ok html ∧
      w₁.disk.writeBytes (pageFile site.tmpRoot page.route) (Utf8.encode html) = .ok w'.disk ∧
      files = (pageFile site.tmpRoot page.route, entry) := by
  unfold materializePage at h
  obtain ⟨fragment, w₀, hread, hrest⟩ := Job.exists_of_bind_ok h
  obtain ⟨hfragment, hw₀⟩ := Job.of_textOf_ok hread
  rw [hw₀] at hrest
  obtain ⟨entry, w₁, hentry, hrest⟩ := Job.exists_of_bind_ok hrest
  obtain ⟨html, w₂, hlook, hrest⟩ := Job.exists_of_bind_ok hrest
  obtain ⟨hhtml, hdisk⟩ := Job.of_look_ok hlook
  obtain ⟨_, w₃, hwrite, hrest⟩ := Job.exists_of_bind_ok hrest
  have hwritten := Job.of_writeText_ok hwrite
  rw [hdisk] at hwritten
  cases hrest
  exact ⟨fragment, entry, w₁, html, hfragment, hentry, hhtml, hwritten, rfl⟩

theorem exists_of_writeEntry {entry : Option Path} {path : Path}
    (h : outcome (writeEntry site page fragment) w = (.ok entry, w')) (hscript : page.script = some path)
    (hstands : w.disk.isFile path = .ok true) : ∃ script l,
      ((entryScript site fragment).outcome w.disk l).1 = .ok script ∧
      w.disk.writeBytes path (Utf8.encode script) = .ok w'.disk := by
  unfold writeEntry at h
  rw [hscript] at h
  simp only at h
  obtain ⟨there, w₁, hask, hrest⟩ := Job.exists_of_bind_ok h
  obtain ⟨hthere, hw₁⟩ := Job.of_ask_ok hask
  rw [exists?_of_isFile hstands] at hthere
  cases hthere
  rw [hw₁] at hrest
  simp only [if_true] at hrest
  obtain ⟨script, w₂, hlook, hrest⟩ := Job.exists_of_bind_ok hrest
  obtain ⟨hscript', hdisk⟩ := Job.of_look_ok hlook
  obtain ⟨_, w₃, hwrite, hrest⟩ := Job.exists_of_bind_ok hrest
  have hwritten := Job.of_writeText_ok hwrite
  rw [hdisk] at hwritten
  cases hrest
  exact ⟨script, _, hscript', hwritten⟩

theorem spares_name {dir : Location} {name other : Text} (hne : other ≠ name) :
    Spares (· = dir ++ [other]) (dir ++ [name]) := by
  rintro loc hloc rfl
  have hsame := hloc.eq_of_length (by simp)
  exact hne (List.singleton_inj.1 (List.append_cancel_left hsame))

/-- Where the script entry of a page stands, if the page has one. -/
def EntryAt (page : Page) : Location → Prop := fun loc => .ofLocation loc ∈ page.script

theorem changes_materializePage (hsite : Usual site home) (hground : Ground home d₀)
    (hfound : Page.Found site d₀ page) {files : Path × Option Path}
    (h : outcome (materializePage site tree page) w = (.ok files, w')) :
    Changes (· = documentAt site home page.route) (EntryAt page) w.disk w'.disk := by
  have hroute := fileName_route hsite.placed hground.sound hfound
  have hwrites : WritesPage site (Changes (· = documentAt site home page.route) (EntryAt page) w.disk) page := by
    refine ⟨fun path hpath s => Keeps.change fun d d' hwrite hd => hd.trans ?_,
      fun s => Keeps.change fun d d' hwrite hd => hd.trans ?_⟩
    · obtain ⟨rfl, hplain, -⟩ := script_of_found hsite hground hfound hpath
      refine Disk.changes_writeBytes_resolve (by simp [Path.ofLocation]) (spelt_ofLocation hplain) ?_ hwrite
      rw [Path.resolve_plain hplain]
      exact hpath
    · rw [pageFile_tmpRoot hsite hroute] at hwrite
      have hname := plain_of_writeBytes (hroute.append (by decide) (by decide)) hwrite
      exact Disk.changes_writeBytes (PlainNames.documentAt hsite hground.plain hname) rfl hwrite
  have hkept := hwrites.materializePage tree w (.refl _ _ _)
  rw [h] at hkept
  exact hkept

/-! ## All pages -/

/-- Pages of distinct routes are materialised one after the other, each under its route. -/
theorem course_of_materializeAll {pages : Keyed Page} {made a : Artifacts} (hnodup : (Keyed.keys pages).Nodup)
    (hnew : ∀ route ∈ Keyed.keys pages, route ∉ Keyed.keys made.pages)
    (h : outcome (materializeAll site tree pages made) w = (.ok a, w')) :
    ∃ files, Course (fun item files w w' => outcome (materializePage site tree item.2) w = (.ok files, w'))
        pages files w w' ∧
      a.pages = made.pages ++ pages.map fun item => (item.1, pageFile site.tmpRoot item.2.route) := by
  induction pages generalizing made w with
  | nil =>
    cases h
    exact ⟨[], .nil _, by rw [List.map_nil, List.append_nil]⟩
  | cons item rest ih =>
    obtain ⟨route, page⟩ := item
    obtain ⟨hroute, hrest⟩ := List.nodup_cons.1 hnodup
    unfold materializeAll at h
    obtain ⟨files, w₁, hpage, h⟩ := Job.exists_of_bind_ok h
    obtain ⟨fragment, entry, w₂, html, -, -, -, -, rfl⟩ := exists_of_materializePage hpage
    have hput : Keyed.put route (pageFile site.tmpRoot page.route) made.pages =
        made.pages ++ [(route, pageFile site.tmpRoot page.route)] :=
      Keyed.put_of_not_mem (hnew route List.mem_cons_self)
    have hfresh : ∀ other ∈ Keyed.keys rest,
        other ∉ Keyed.keys (Keyed.put route (pageFile site.tmpRoot page.route) made.pages) := by
      intro other hother
      rw [hput, Keyed.keys, List.map_append, List.mem_append, not_or]
      refine ⟨hnew other (List.mem_cons_of_mem _ hother), fun hmem => hroute ?_⟩
      rw [List.map_singleton, List.mem_singleton] at hmem
      exact hmem ▸ hother
    obtain ⟨more, hcourse, hpages⟩ := ih hrest hfresh h
    refine ⟨_, .cons hpage hcourse, ?_⟩
    rw [hpages, hput, List.append_assoc]
    rfl

/-- Whatever pages there are, they are materialised one after the other. -/
theorem course_of_materializeSite {a : Artifacts} (h : outcome (materializeSite site tree) w = (.ok a, w')) :
    ∃ w₁ files, (w₁.disk = w.disk ∨ w₁.disk = (w.disk.ensureDirectories site.tmpRoot).1) ∧
      Course (fun item files w w' => outcome (materializePage site tree item.2) w = (.ok files, w'))
        (pagesFound site w) files w₁ w' ∧
      a.pages = (pagesFound site w).map fun item => (item.1, pageFile site.tmpRoot item.2.route) := by
  unfold materializeSite at h
  obtain ⟨pages, w₀, hlook, h⟩ := Job.exists_of_bind_ok h
  obtain ⟨hdiscover, hdisk⟩ := Job.of_look_ok hlook
  have hpages : pagesFound site w = pages := by
    unfold pagesFound
    rw [hdiscover]
    rfl
  obtain ⟨hnodup, -⟩ := Page.mem_discover hdiscover
  rw [hpages]
  unfold materialize at h
  simp only at h
  split at h
  · rename_i hempty
    rw [List.isEmpty_iff.1 hempty]
    obtain ⟨_, w₁, hnote, h⟩ := Job.exists_of_bind_ok h
    obtain ⟨-, hsame⟩ := Job.of_look_ok hnote
    cases h
    exact ⟨w', [], .inl (hsame.trans hdisk), .nil _, rfl⟩
  · obtain ⟨_, w₁, hmake, h⟩ := Job.exists_of_bind_ok h
    obtain ⟨files, hcourse, ha⟩ := course_of_materializeAll hnodup (fun _ _ hc => absurd hc List.not_mem_nil) h
    refine ⟨w₁, files, .inr ?_, hcourse, ha⟩
    rw [Job.outcome_changeBySteps, hdisk] at hmake
    exact (congrArg (fun r => r.2.disk) hmake).symm

theorem nodup_pagesFound (site : Site) (w : Workspace) :
    (pagesFound site w).Nodup ∧ ∀ item ∈ pagesFound site w, ∀ other ∈ pagesFound site w, other ≠ item →
      other.2.route ≠ item.2.route ∧ other.2.name ≠ item.2.name := by
  have hnodup := nodup_keys_pagesFound site w
  refine ⟨List.Nodup.of_map _ hnodup, fun item hitem other hother hne => ?_⟩
  have hkey : other.1 ≠ item.1 := fun hsame => hne (List.inj_on_of_nodup_map hnodup hother hitem hsame)
  have hroute : other.2.route ≠ item.2.route := by
    rw [← (mem_pagesFound hother).1, ← (mem_pagesFound hitem).1]
    exact hkey
  refine ⟨hroute, fun hname => hroute ?_⟩
  rw [(mem_pagesFound hother).2.route, (mem_pagesFound hitem).2.route, hname]

theorem endsIn_scriptEntry (hsite : Usual site home) (hground : Ground home d) :
    EndsIn [site.pageScript] (ScriptEntry site ⟨d, l⟩) := by
  rintro loc ⟨item, hitem, path, hpath, rfl⟩
  obtain ⟨rfl, hplain, -⟩ := script_of_found hsite hground (mem_pagesFound hitem).2 hpath
  rw [Path.resolve_plain hplain]
  exact ⟨_, site.pageScript, List.mem_singleton_self _, rfl⟩

theorem holdsFile_scriptEntry (hsite : Usual site home) (hground : Ground home d) (h : ScriptEntry site ⟨d, l⟩ loc) :
    Disk.HoldsFile d loc := by
  obtain ⟨item, hitem, path, hpath, rfl⟩ := h
  obtain ⟨rfl, hplain, hfile⟩ := script_of_found hsite hground (mem_pagesFound hitem).2 hpath
  rw [Path.resolve_plain hplain]
  obtain ⟨loc, bytes, stamp, hplace⟩ := Disk.place_of_isFile hfile
  have hloc : loc = scriptOf site home item.2 := Disk.location_ofLocation hplain hplace
  exact ⟨bytes, stamp, hloc ▸ Disk.place_file hplace⟩

/-- A project, the same with its output directory emptied, and what a build touches from there on. -/
structure Emptied (site : Site) (home : Location) (l : Log) (d d₁ : Disk) : Prop where
  ground : Ground home d
  change : Changes (Beneath home [site.outDir]) Nowhere d d₁

namespace Emptied

variable {d₁ : Disk}

theorem ground' (h : Emptied site home l d d₁) : Ground home d₁ := h.ground.step h.change

theorem outside (h : Emptied site home l d d₁) (hsite : Usual site home)
    (hd : Touches site home (ScriptEntry site ⟨d₁, l⟩) d₁ now) :
    AlikeOutside (Workplace site home) (ScriptEntry site ⟨d₁, l⟩) d now := by
  have hfirst : Changes (Workplace site home) Nowhere d d₁ :=
    h.change.widen fun _ hl => hl.mono (by simp [outputNames])
  have halike : AlikeOutside (Workplace site home) Nowhere d d₁ := hfirst.alikeOutside fun _ hc => hc.elim
  exact (halike.mono fun _ _ hc => hc.elim).trans
    (hd.alikeOutside fun loc hloc => holdsFile_scriptEntry hsite h.ground' hloc)

variable {item : Text × Page} {files : Path × Option Path}

theorem materializePage (h : Emptied site home l d d₁) (hsite : Usual site home)
    (hitem : item ∈ pagesFound site ⟨d₁, l⟩) (hd : Touches site home (ScriptEntry site ⟨d₁, l⟩) d₁ w.disk)
    (hrun : outcome (materializePage site tree item.2) w = (.ok files, w')) :
    Materialized site home tree d item.2 w'.disk := by
  have hmaking := making_touches hsite h.ground' l
  have hfound := hmaking.found item hitem
  have hroute := fileName_route hsite.placed h.ground'.sound hfound
  have hends := endsIn_scriptEntry (l := l) hsite h.ground'
  have hunread : EndsIn (pageNames site) (ScriptEntry site ⟨d₁, l⟩) := hends.mono (by simp [pageNames])
  obtain ⟨fragment, entry, w₁, html, hfragment, hentry, hhtml, hwrite, -⟩ := exists_of_materializePage hrun
  rw [pageFile_tmpRoot hsite hroute] at hwrite
  have hname := plain_of_writeBytes (hroute.append (by decide) (by decide)) hwrite
  have hdocument := PlainNames.documentAt hsite h.ground.plain hname
  have hd₁ : Touches site home (ScriptEntry site ⟨d₁, l⟩) d₁ w₁.disk := by
    have hkept := (hmaking.writes item hitem).writeEntry fragment w hd
    rw [hentry] at hkept
    exact hkept
  have hproject : textIn d item.2.fragment = .ok fragment := by
    have hne : ¬ ScriptEntry site ⟨d₁, l⟩ (fragmentAt site home item.2) := by
      refine not_of_endsIn hends ?_ _
      rw [hsite.pageFile, hsite.pageScript]
      decide
    rw [← textIn_fragment_outside hsite (h.outside hsite hd) h.ground' hfound hne]
    exact hfragment
  refine ⟨hname, fun hrefrains => ⟨html, assembleFile_ok hproject ?_, ?_⟩, fun hrefrains path hpath => ?_⟩
  · exact assemble_outside hsite (h.outside hsite hd₁) hunread h.ground.plain (hrefrains.components fragment hproject)
      hhtml
  · exact Disk.readBytes_writeBytes hwrite
  · obtain ⟨script, l', hscript, hwritten⟩ := exists_of_writeEntry hentry hpath
      (hmaking.standing w.disk hd item hitem path hpath)
    obtain ⟨rfl, hplain, -⟩ := script_of_found hsite h.ground' hfound hpath
    rw [entryScript_outside hsite (h.outside hsite hd) hunread (hrefrains.parts fragment hproject)] at hscript
    refine ⟨script, entryOf_ok hproject hscript, ?_⟩
    have hchange : Changes (Workplace site home) Nowhere w₁.disk w'.disk :=
      Disk.changes_writeBytes hdocument ⟨site.tmpDir, by simp [outputNames], by simp [documentAt]⟩ hwrite
    rw [hchange.readBytes_eq hplain ?_ (spares_nowhere _)]
    · exact Disk.readBytes_writeBytes hwritten
    · rw [scriptOf, List.append_assoc]
      exact hsite.spares_outputs _

theorem materializeSite (h : Emptied site home l d d₁) (hsite : Usual site home) {a : Artifacts}
    (hrun : outcome (materializeSite site tree) ⟨d₁, l⟩ = (.ok a, w')) :
    Touches site home (ScriptEntry site ⟨d₁, l⟩) d₁ w'.disk ∧
      (∀ item ∈ pagesFound site ⟨d₁, l⟩, Materialized site home tree d item.2 w'.disk) ∧
      a.pages = (pagesFound site ⟨d₁, l⟩).map fun item => (item.1, pageFile site.tmpRoot item.2.route) := by
  have hmaking := making_touches hsite h.ground' l
  obtain ⟨w₁, files, hstart, hcourse, hpages⟩ := course_of_materializeSite hrun
  have hd : Touches site home (ScriptEntry site ⟨d₁, l⟩) d₁ w₁.disk := by
    rcases hstart with hsame | hmade
    · rw [hsame]
      exact .refl _ _ d₁
    · rw [hmade]
      exact Disk.changes_ensureDirectories_beneath h.ground' (hsite.placed.tmpRoot.mono (by simp [outputNames]))
  obtain ⟨hnodup, hroutes⟩ := nodup_pagesFound site ⟨d₁, l⟩
  rw [← and_assoc]
  refine ⟨hcourse.each (I := fun w => Touches site home (ScriptEntry site ⟨d₁, l⟩) d₁ w.disk)
    (fun item w => Materialized site home tree d item.2 w.disk) hnodup
    (fun item hitem files w w' hw hrun => ⟨?_, h.materializePage hsite hitem hw hrun⟩)
    (fun item hitem other hother hne files w w' _ hpost hrun => ?_) hd, hpages⟩
  · have hkept := (hmaking.writes item hitem).materializePage tree w hw
    rw [hrun] at hkept
    exact hkept
  · obtain ⟨hroute, hname⟩ := hroutes item hitem other hother hne
    have hscript : ∀ loc, EntryAt other.2 loc → loc = scriptOf site home other.2 := fun loc hloc =>
      congrArg Path.parts (script_of_found hsite h.ground' (hmaking.found other hother) hloc).1
    refine hpost.of_changes hsite h.ground' (hmaking.found item hitem)
      (changes_materializePage hsite h.ground' (hmaking.found other hother) hrun) ?_ ?_ ?_ ?_
    · exact spares_name fun hsame => hroute (List.append_cancel_right hsame)
    · rintro loc hloc hentry
      rw [hscript loc hentry] at hloc
      have hlen := hloc.length_le
      simp [scriptOf, appRoot, documentAt] at hlen
    · rw [scriptOf, List.append_assoc]
      refine (hsite.spares_outputs _).mono fun loc hloc => ?_
      rw [hloc]
      exact ⟨site.tmpDir, by simp [outputNames], List.prefix_append _ _⟩
    · rintro loc hloc hentry
      rw [hscript loc hentry] at hloc
      have hsame := hloc.eq_of_length (by simp [scriptOf])
      exact hname (List.singleton_inj.1 (List.append_cancel_left (List.append_cancel_right hsame)))

end Emptied

end Sitewright.Build
