import Sitewright.Assembly
import Sitewright.Proofs.Component.Cycle
import Sitewright.Proofs.Template.Placing
/-!
# What a page is assembled to

The passes of an assembly rewrite plain text one after the other. On printed templates they amount to one
evaluation of the template: the blocks of the page are unrolled before components come in and those of the
components after, and variables are rendered in each component and at the end.

* `composed`, `completed`: the passes up to the layout, and those behind it.

Main statement: where the markups of all components needed are printed templates, an assembly that succeeds
gives the one meaning of the page's template (`assemble_means`).
-/
set_option autoImplicit false

namespace Sitewright.Assembly

open Reading (outcome textIn mapError_eq_ok exists_of_bind_ok bind_ok)
open Template
open Component (found markupIn)

variable {site : Site} {d : Disk} {lib : Library} {tree : Variables}

/-! ## Passes -/

/-- The document of a fragment before components are put in. -/
def composed (site : Site) (page : Text) (strict : Bool) (fragment : Text) : Reading Text := do
  let html ← expandRepeats fragment
  Layout.compose site page strict html

def completed (site : Site) (tree : Variables) (document : Text) : Reading Text := do
  let html ← Component.inject site tree document
  let html ← expandRepeats html
  renderVariables tree html

theorem outcome_assemble (page : Text) (strict : Bool) (fragment : Text) (l : Log) :
    outcome (assemble site tree page strict fragment) d l =
      match outcome (composed site page strict fragment) d l with
      | (.ok document, l') => outcome (completed site tree document) d l'
      | (.error e, l') => (.error e, l') := by
  unfold assemble composed
  rw [Reading.outcome_bind, Reading.outcome_bind]
  rcases outcome (expandRepeats fragment) d l with ⟨_ | html, l'⟩
  · rfl
  · simp only
    rw [Reading.outcome_bind]
    rcases outcome (Layout.compose site page strict html) d l' with ⟨_ | document, l''⟩ <;> rfl

theorem outcome_expandRepeats (s : Text) (l : Log) :
    outcome (expandRepeats s) d l = ((Repeat.expand s).mapError .overflow, l) :=
  Reading.outcome_ofExcept _ _ d l

theorem outcome_renderVariables (s : Text) (l : Log) :
    outcome (renderVariables tree s) d l = ((Variable.render s tree).mapError .badIndex, l) :=
  Reading.outcome_ofExcept _ _ d l

/-- Injecting into a printed template prints it with its references replaced, and adds nothing to the head. -/
theorem inject_print (hspace : site.componentNamespace = commonSpace) {f : Forest}
    (hdescribed : ∀ t, Needs lib f t → Described site d tree lib t) {l : Log} {out : Text}
    (h : (outcome (Component.inject site tree f.print) d l).1 = .ok out) :
    ∃ f', Substituted (Placed lib tree) f f' ∧ out = f'.print := by
  have hexpand := expand_print_within hspace hdescribed (Component.boundOn d f.print) [] (f := f)
    (fun t ht => .page ht) ⟨[], []⟩ l (Component.known_empty site d _)
  rw [Component.outcome_inject, Component.outcome_injectWithin] at h
  rcases hrun : Component.runOn (Component.expand site tree (Component.boundOn d f.print) [] f.print)
    ⟨[], []⟩ d l with ⟨_ | ⟨s, i⟩, l'⟩
  · rw [hrun] at h
    cases h
  · rw [hrun] at h hexpand
    obtain ⟨hknown, f', hsub, rfl⟩ := hexpand
    have htags : i.used.flatMap (Component.headTags site) = [] := by
      rw [List.flatMap_eq_nil_iff]
      intro c hc
      obtain ⟨hfound, hneeds⟩ := hknown.used c hc
      obtain ⟨hsheet, hscript⟩ := (hdescribed _ hneeds).plain c hfound
      rw [Component.headTags, hsheet, hscript]
      rfl
    simp only [htags, List.foldl_nil] at h
    cases h
    exact ⟨f', hsub, rfl⟩

/-- A document that is a printed template becomes a meaning of the template. -/
theorem completed_means (hspace : site.componentNamespace = commonSpace) {f : Forest}
    (hdescribed : ∀ t, Needs lib f t → Described site d tree lib t) (htame : Tame tree f) {l : Log}
    {out : Text} (h : (outcome (completed site tree f.print) d l).1 = .ok out) : Means lib tree f out := by
  obtain ⟨html, l', hinject, h⟩ := exists_of_bind_ok h
  obtain ⟨f', hplaced, rfl⟩ := inject_print hspace hdescribed (congrArg Prod.fst hinject)
  obtain ⟨html, l'', hexpand, h⟩ := exists_of_bind_ok h
  rw [outcome_expandRepeats] at hexpand
  obtain rfl := expand_print (mapError_eq_ok (congrArg Prod.fst hexpand))
  rw [outcome_renderVariables] at h
  have htame' : Tame tree f'.unroll := fun p hp =>
    htame.placed hplaced p (Forest.mem_atoms_unroll hp).1
  obtain ⟨f'', hfilled, rfl⟩ := render_print htame' (mapError_eq_ok h)
  have hplain : ∀ a ∈ f''.atoms, a.token? = none ∧ a.marker? = none :=
    hfilled.filled_atoms (fun _ => ⟨rfl, rfl⟩) fun a ha =>
      ⟨hplaced.no_token a (Forest.mem_atoms_unroll ha).1, (Forest.mem_atoms_unroll ha).2⟩
  have hliteral : ∀ a ∈ f''.atoms, ∃ s, a = .literal s := by
    intro a ha
    cases a with
    | literal s => exact ⟨s, rfl⟩
    | opening count => cases (hplain _ ha).2
    | closing => cases (hplain _ ha).2
    | component t => cases (hplain _ ha).1
    | value p => cases hfilled.no_path _ ha
  exact (Means.of_filled hfilled (means_print hliteral)).of_unroll.of_placed hplaced

theorem compose_of_missing {page fragment : Text} {strict : Bool} {l : Log} {e : Failure}
    (hlayout : textIn d site.layoutFile = .error e) (hfiles : e.isOfFiles = true) :
    (outcome (Layout.compose site page strict fragment) d l).1 =
      if strict then .error (.layoutUnreadable site.layoutFile.toText) else .ok fragment := by
  unfold Layout.compose
  rw [Reading.outcome_bind, Reading.outcome_attempt, Reading.outcome_textOf, hlayout]
  simp only [hfiles]
  cases strict <;> rfl

theorem composed_of_missing {page fragment document : Text} {strict : Bool} {l : Log} {e : Failure}
    (hlayout : textIn d site.layoutFile = .error e) (hfiles : e.isOfFiles = true)
    (h : (outcome (composed site page strict fragment) d l).1 = .ok document) :
    Repeat.expand fragment = .ok document := by
  obtain ⟨html, l', hexpand, h⟩ := exists_of_bind_ok h
  rw [outcome_expandRepeats] at hexpand
  rw [mapError_eq_ok (congrArg Prod.fst hexpand)]
  rw [compose_of_missing hlayout hfiles] at h
  cases strict with
  | true => cases h
  | false =>
    cases h
    rfl

/-! ## Assemblies -/

/-- The fragment is the printed template, and there is no layout; or what the layout makes of the fragment is
the printed template. -/
def Composes (site : Site) (d : Disk) (page : Text) (strict : Bool) (fragment : Text) (l : Log)
    (template : Forest) : Prop :=
  (fragment = template.print ∧ ∃ e, textIn d site.layoutFile = .error e ∧ e.isOfFiles = true) ∨
    (outcome (composed site page strict fragment) d l).1 = .ok template.print

/-- Where the markup of every component that a template needs is a printed template, the assembly of the
printed template, if it succeeds, gives the one meaning of the template. -/
theorem assemble_means (site : Site) (tree : Variables) (d : Disk) (lib : Library) (template : Forest)
    (page : Text) (strict : Bool) (fragment : Text) (log : Log) (out : Text)
    (hspace : site.componentNamespace = commonSpace)
    (hdescribed : ∀ t, Needs lib template t → Described site d tree lib t)
    (htame : Tame tree template) (hcomposes : Composes site d page strict fragment log template)
    (hok : (outcome (assemble site tree page strict fragment) d log).1 = .ok out) :
    ∀ v, Means lib tree template v ↔ v = out := by
  have hmeans : Means lib tree template out := by
    rw [outcome_assemble] at hok
    rcases hdocument : outcome (composed site page strict fragment) d log with ⟨_ | document, l⟩
    · rw [hdocument] at hok
      cases hok
    · rw [hdocument] at hok
      rcases hcomposes with ⟨rfl, e, hlayout, hfiles⟩ | hprint
      · have hexpand := composed_of_missing hlayout hfiles (congrArg Prod.fst hdocument)
        rw [expand_print hexpand] at hok
        have hsubset : ∀ a ∈ template.unroll.atoms, a ∈ template.atoms := fun a ha =>
          (Forest.mem_atoms_unroll ha).1
        exact (completed_means hspace (fun t ht => hdescribed t (ht.of_subset hsubset))
          (fun p hp => htame p (hsubset _ hp)) hok).of_unroll
      · rw [hdocument] at hprint
        cases hprint
        exact completed_means hspace hdescribed htame hok
  intro v
  constructor
  · intro hv
    exact hv.unique hmeans
  · rintro rfl
    exact hmeans

def two : Count := ⟨.none, [2], by decide, by decide⟩

/-- A variable, two literals and two references. -/
def siteName : Address := ⟨"SITE.name".toList, by decide⟩

def itemStart : Literal := ⟨"<li>".toList, by decide⟩

def itemEnd : Literal := ⟨"</li>".toList, by decide⟩

def item : Reference := ⟨"item".toList, by decide, by decide, by decide⟩

def absent : Reference := ⟨"absent".toList, by decide, by decide, by decide⟩

/-- The template of an item, in which a variable is repeated. -/
def itemTemplate : Forest := .literal itemStart (.block two (.value siteName .nil) (.literal itemEnd .nil))

/-- A page that repeats the item and refers to a component that does not exist. -/
def listTemplate : Forest := .block two (.component item .nil) (.component absent (.value siteName .nil))

def listLibrary : Library := fun token => if token = item.token then some itemTemplate else none

def listTree : Variables := [("SITE".toList, .object [("name".toList, .string "x".toList)])]

/-- The markup of the item, with a blank line behind it. -/
def itemMarkup : Text :=
  "<li>\x7b\x7brepeat 2\x7d\x7d\x7b\x7bSITE.name\x7d\x7d\x7b\x7b/repeat\x7d\x7d</li>\n\n".toList

/-- A project with the item as its only component, and without a layout. -/
def listDisk : Disk where
  tree :=
    let common : Location := ["project".toList, "src".toList, "common".toList]
    [([], .directory), (["project".toList], .directory), (["project".toList, "src".toList], .directory),
      (common, .directory), (common ++ ["item".toList], .directory),
      (common ++ ["item".toList, "index.html".toList],
        .file (Utf8.encode itemMarkup) (.seconds 0))]
  here := []
  clock := 0

def listSite : Site := .usual ⟨.root, ["project".toList]⟩

theorem needs_list : ∀ t, Needs listLibrary listTemplate t → t = item.token ∨ t = absent.token := by
  intro t ht
  induction ht with
  | page h =>
    simp only [listTemplate, Forest.atoms, List.cons_append, List.nil_append, List.mem_cons, reduceCtorEq,
      List.not_mem_nil, or_false, false_or, Atom.component.injEq] at h
    rcases h with rfl | rfl
    · exact .inl rfl
    · exact .inr rfl
  | inner _ hlib h _ =>
    unfold listLibrary at hlib
    split at hlib
    · cases hlib
      simp [itemTemplate, Forest.atoms] at h
    · cases hlib

theorem resolve_siteName : Variable.resolve siteName.path listTree = .ok "x".toList := by
  cbv

theorem tame_list {f : Forest} (h : ∀ p, .value p ∈ f.atoms → p = siteName) : Tame listTree f := by
  intro p hp v hv
  rw [h p hp, resolve_siteName] at hv
  cases hv
  decide

theorem solid_item : Solid itemTemplate :=
  ⟨⟨'<', by cbv, by decide, by decide⟩, ⟨'>', by cbv, by decide, by decide⟩⟩

theorem described_item : Described listSite listDisk listTree listLibrary item.token := by
  have hmarkup : markupIn listSite listDisk item.token = .ok (some itemMarkup) := by
    cbv
  have hprint : itemMarkup = itemTemplate.print ++ "\n\n".toList := by
    cbv
  have hfound : found listSite listDisk item.token = .ok (some ⟨item.token,
      (listSite.componentRoot item.token).join listSite.componentMarkup, none, none⟩) := by
    cbv
  constructor
  · intro hnone
    rw [hmarkup] at hnone
    cases hnone
  · intro m hm
    rw [hmarkup] at hm
    cases hm
    refine ⟨itemTemplate, if_pos rfl, ?_, solid_item, tame_list fun p hp => ?_⟩
    · rw [hprint]
      exact solid_item.trim_print (u := []) (fun c hc => absurd hc List.not_mem_nil)
        (List.all_eq_true.1 (by decide))
    · simpa [itemTemplate, Forest.atoms] using hp
  · intro c hc
    rw [hfound] at hc
    cases hc
    exact ⟨rfl, rfl⟩

theorem described_absent : Described listSite listDisk listTree listLibrary absent.token := by
  have hfound : found listSite listDisk absent.token = .ok none := by
    cbv
  constructor
  · exact fun _ => if_neg (by decide)
  · intro m hm
    rw [markupIn, hfound] at hm
    cases hm
  · intro c hc
    rw [hfound] at hc
    cases hc

/-- The page before components are put in, and before and after the second expansion of blocks. -/
def listDocument : Text := "\x7b\x7bcommon/item\x7d\x7d\x7b\x7bcommon/item\x7d\x7d".toList ++
  "\x7b\x7bcommon/absent\x7d\x7d\x7b\x7bSITE.name\x7d\x7d".toList

def listItem : Text := "<li>\x7b\x7brepeat 2\x7d\x7dx\x7b\x7b/repeat\x7d\x7d</li>".toList

def listUnrolled : Text := "<li>xx</li><li>xx</li>\x7b\x7bSITE.name\x7d\x7d".toList

theorem outcome_assemble_list : (outcome (assemble listSite listTree "home".toList false listTemplate.print)
    listDisk []).1 = .ok "<li>xx</li><li>xx</li>x".toList := by
  have hunroll : Repeat.expand listTemplate.print = .ok listDocument := by cbv
  have hlayout : textIn listDisk listSite.layoutFile =
      .error (.file (.flaw .missing "/project/src/app/layout.html".toList)) := by cbv
  have hinject : ∀ l, (outcome (Component.inject listSite listTree listDocument) listDisk l).1 =
      .ok (listItem ++ listItem ++ "\x7b\x7bSITE.name\x7d\x7d".toList) := by
    intro l
    cbv
  have hexpand : Repeat.expand (listItem ++ listItem ++ "\x7b\x7bSITE.name\x7d\x7d".toList) =
      .ok listUnrolled := by cbv
  have hrender : Variable.render listUnrolled listTree = .ok "<li>xx</li><li>xx</li>x".toList := by cbv
  refine bind_ok (by rw [outcome_expandRepeats, hunroll]; rfl) fun l => ?_
  refine bind_ok (by rw [compose_of_missing hlayout rfl]; rfl) fun l => ?_
  refine bind_ok (hinject l) fun l => ?_
  refine bind_ok (by rw [outcome_expandRepeats, hexpand]; rfl) fun l => ?_
  rw [outcome_renderVariables, hrender]
  rfl

/-- Each item is repeated inside and as a whole, and the component that does not exist is left out. -/
theorem assemble_means_list :
    Means listLibrary listTree listTemplate "<li>xx</li><li>xx</li>x".toList := by
  have hlayout : textIn listDisk listSite.layoutFile =
      .error (.file (.flaw .missing "/project/src/app/layout.html".toList)) := by cbv
  have hdescribed : ∀ t, Needs listLibrary listTemplate t →
      Described listSite listDisk listTree listLibrary t := by
    intro t ht
    rcases needs_list t ht with rfl | rfl
    · exact described_item
    · exact described_absent
  have htame : Tame listTree listTemplate := tame_list fun p hp => by
    simpa [listTemplate, Forest.atoms] using hp
  exact (assemble_means listSite listTree listDisk listLibrary listTemplate "home".toList false
    listTemplate.print [] _ rfl hdescribed htame (.inl ⟨rfl, _, hlayout, rfl⟩) outcome_assemble_list _).2 rfl

end Sitewright.Assembly
