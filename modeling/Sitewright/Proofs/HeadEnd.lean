import Sitewright.Proofs.Assembly
import Sitewright.Proofs.Component.Links
/-!
# Where the head of a page ends

A layout is merged with a page at the end of its head, which counts in any letter case; the tags of components are
added before the first end of the head that is written in lower case. Where there is one in the document, and the
names of components are plain, every component that the document reaches is linked in the page that is assembled.
Where there is none, no tag is added.

* `Layout.withHead`: a layout with the head of a page.
* `Layout.ClosesHead`: the head of a page's document ends in lower case.

Main statement: `Assembly.assemble_links_components`.
-/
set_option autoImplicit false

namespace Sitewright

open Html (closeHead)

/-! ## Layouts -/

namespace Layout

/-- The shell with the head of a page at the end of its own. -/
def withHead (shell head : Text) : Text :=
  if head.isEmpty then shell else Html.replaceFirst Html.headEnd (Html.headLine head ++ closeHead) shell

theorem merge_eq (shell head body : Text) : merge shell head body =
    Html.replaceFirst Html.main ("<main>\n        ".toList ++ body ++ "\n    </main>".toList)
      (withHead shell head) := rfl

theorem closeHead_withHead {shell head : Text} (hfound : (Scan.first? Html.headEnd shell).isSome)
    (h : head ≠ [] ∨ closeHead <:+: shell) : closeHead <:+: withHead shell head := by
  unfold withHead
  split
  · rename_i hempty
    exact h.resolve_left fun hne => hne (List.isEmpty_iff.1 hempty)
  · obtain ⟨⟨before, u, rest⟩, hfirst⟩ := Option.isSome_iff_exists.1 hfound
    rw [Html.replaceFirst, hfirst]
    exact ⟨before ++ Html.headLine head, rest, by simp⟩

theorem closeHead_merge {shell head : Text} (h : closeHead <:+: withHead shell head)
    (houtside : ∀ before inner rest, Scan.first? Html.main (withHead shell head) = some (before, inner, rest) →
      closeHead <:+: before ∨ closeHead <:+: rest) (body : Text) : closeHead <:+: merge shell head body := by
  rw [merge_eq, Html.replaceFirst]
  cases hfirst : Scan.first? Html.main (withHead shell head) with
  | none => exact h
  | some found =>
    obtain ⟨before, inner, rest⟩ := found
    rcases houtside before inner rest hfirst with hin | hin
    · exact hin.trans ((List.prefix_append before _).trans (List.prefix_append _ rest)).isInfix
    · exact hin.trans (List.suffix_append _ rest).isInfix

theorem rebaseHead_ne_nil (site : Site) (page : Text) {head : Text} (h : head ≠ []) :
    rebaseHead site page head ≠ [] := by
  obtain ⟨c, s, rfl⟩ := List.exists_cons_of_ne_nil h
  unfold rebaseHead Scan.substitute
  cases hmark : localReference (c :: s) with
  | none => simp [Scan.scan_cons_of_none hmark]
  | some found => simp [Scan.scan_cons_of_some hmark]

/-- The head of a page's document ends in lower case outside of its main region: the layout ends its head so, or the
page has a head of its own. -/
structure ClosesHead (site : Site) (page shell fragment : Text) : Prop where
  found : (Scan.first? Html.headEnd shell).isSome
  closes : (splitFragment fragment).1 ≠ [] ∨ closeHead <:+: shell
  outside : ∀ before inner rest,
    Scan.first? Html.main (withHead shell (rebaseHead site page (splitFragment fragment).1)) =
        some (before, inner, rest) →
      closeHead <:+: before ∨ closeHead <:+: rest

theorem compose_of_shell {site : Site} {d : Disk} {page shell fragment : Text} {strict : Bool}
    (hshell : Reading.textIn d site.layoutFile = .ok shell) (l : Log) :
    (Reading.outcome (compose site page strict fragment) d l).1 =
      .ok (merge shell (rebaseHead site page (splitFragment fragment).1) (splitFragment fragment).2) := by
  unfold compose
  rw [Reading.outcome_bind, Reading.outcome_attempt, Reading.outcome_textOf, hshell]
  rfl

theorem ClosesHead.compose {site : Site} {d : Disk} {page shell fragment document : Text} {strict : Bool} {l : Log}
    (h : ClosesHead site page shell fragment) (hshell : Reading.textIn d site.layoutFile = .ok shell)
    (hdocument : (Reading.outcome (Layout.compose site page strict fragment) d l).1 = .ok document) :
    closeHead <:+: document := by
  rw [compose_of_shell hshell] at hdocument
  cases hdocument
  have hhead := h.closes.imp_left (rebaseHead_ne_nil site page)
  exact closeHead_merge (closeHead_withHead h.found hhead) h.outside _

end Layout

/-! ## Pages -/

namespace Assembly

open Reading (outcome textIn mapError_eq_ok exists_of_bind_ok bind_ok)
open Component (found headTags Expands Reaches Linkable)

variable {site : Site} {d : Disk} {tree : Variables}

theorem infix_finished {tag s html out : Text} (hfree : Template.BraceFree tag)
    (hwords : ∃ word x behind, tag = '<' :: (word ++ ' ' :: x :: behind) ∧ Text.isBlank x = false) (hin : tag <:+: s)
    (hkeeps : Repeat.Keeps tag (Repeat.parse s)) (hexpand : Repeat.expand s = .ok html)
    (hrender : Variable.render html tree = .ok out) : tag <:+: out := by
  obtain ⟨word, x, behind, rfl, hx⟩ := hwords
  have hbrace : '\x7d' ∉ '<' :: (word ++ ' ' :: x :: behind) := fun hmem => (hfree _ hmem).2 rfl
  have hexpanded := Repeat.infix_expand (List.cons_ne_nil _ _) (Template.braced_marker.quiet hfree) hin
    (fun m source hmark => Repeat.misses_marker hx hbrace hmark) hkeeps hexpand
  obtain ⟨texts, -, rfl⟩ := Template.render_ok hrender
  exact Scan.infix_fill (Template.braced_placeholder.quiet hfree) hexpanded
    (fun path source hmark => Scan.misses_of_not_mem (Variable.not_mem_placeholder hmark)) texts

/-- Where the document of a page ends its head in lower case when its components have been put in, and names are plain,
the page holds the tags of all components that the document reaches, but for those in a block that is repeated zero
times. Its head ends so if the layout ends its own so or the page has a head, outside of the main region. Where it does
not, no tag is added. -/
theorem assemble_links_components (site : Site) (tree : Variables) (d : Disk) (page : Text) (strict : Bool)
    (fragment : Text) (log : Log) (out : Text)
    (hok : (outcome (assemble site tree page strict fragment) d log).1 = .ok out) :
    ∃ document expanded injected uses,
      (outcome (composed site page strict fragment) d log).1 = .ok document ∧
      Expands site d tree document expanded uses ∧
      (∀ l, (outcome (Component.inject site tree document) d l).1 = .ok injected) ∧
      (¬ closeHead <:+: expanded → injected = expanded) ∧
      (Linkable site d document →
        (closeHead <:+: expanded → ∀ t c, Reaches site d document t → found site d t = .ok (some c) →
          ∀ tag ∈ headTags site c, Repeat.Keeps tag (Repeat.parse injected) → tag <:+: out) ∧
        ((∃ shell html, textIn d site.layoutFile = .ok shell ∧ Repeat.expand fragment = .ok html ∧
          Layout.ClosesHead site page shell html) → closeHead <:+: expanded)) := by
  rw [outcome_assemble] at hok
  rcases hcomposed : outcome (composed site page strict fragment) d log with ⟨_ | document, l₁⟩
  · rw [hcomposed] at hok
    cases hok
  rw [hcomposed] at hok
  obtain ⟨injected, l₂, hinject, hok⟩ := exists_of_bind_ok hok
  obtain ⟨html, l₃, hexpand, hok⟩ := exists_of_bind_ok hok
  rw [outcome_expandRepeats] at hexpand
  rw [outcome_renderVariables] at hok
  have hinjected := congrArg Prod.fst hinject
  obtain ⟨expanded, uses, hexpands⟩ := Component.expands_of_inject hinjected
  refine ⟨document, expanded, injected, uses, rfl, hexpands, Component.inject_ok_of_log hinjected, fun hnone => ?_,
    fun hlinkable => ⟨fun hclose t c hreaches hfound tag htag hkeeps => ?_, ?_⟩⟩
  · obtain ⟨used, hout, -⟩ := hexpands.inject l₁
    have hcut : Text.cutAt? closeHead expanded = none := by
      rw [Text.cutAt?_eq_none_iff, Bool.eq_false_iff]
      exact fun hin => hnone (Text.contains_iff_infix.1 hin)
    rw [hinjected] at hout
    cases hout
    exact Html.foldl_appendToHead_of_none hcut
  · have hin := hexpands.tags_injected hlinkable hinjected hclose hreaches hfound htag
    obtain rfl := (Component.of_found hfound).1
    obtain ⟨hfree, hwords⟩ := hlinkable.tag_words hreaches htag
    exact infix_finished hfree hwords hin hkeeps (mapError_eq_ok (congrArg Prod.fst hexpand)) (mapError_eq_ok hok)
  · rintro ⟨shell, html', hshell, hfragment, hcloses⟩
    obtain ⟨html'', l', hfirst, hcompose⟩ := exists_of_bind_ok (congrArg Prod.fst hcomposed)
    rw [outcome_expandRepeats, hfragment] at hfirst
    cases congrArg Prod.fst hfirst
    exact hexpands.closeHead (hcloses.compose hshell hcompose) hlinkable.not_mem_reference

/-! ## A layout in capitals -/

/-- A layout that writes the tags of its head in capitals. -/
def capitalLayout : Text := "<html><HEAD></HEAD><body><main></main></body></html>".toList

/-- A project with that layout and a component that has a stylesheet. -/
def navDisk : Disk where
  tree :=
    let app : Location := ["project".toList, "src".toList, "app".toList]
    let nav : Location := ["project".toList, "src".toList, "common".toList, "nav".toList]
    [([], .directory), (["project".toList], .directory), (["project".toList, "src".toList], .directory),
      (app, .directory), (app ++ ["layout.html".toList], .file (Utf8.encode capitalLayout) (.seconds 0)),
      (["project".toList, "src".toList, "common".toList], .directory), (nav, .directory),
      (nav ++ ["index.html".toList], .file (Utf8.encode "<nav></nav>".toList) (.seconds 0)),
      (nav ++ ["style.scss".toList], .file (Utf8.encode "a\x7b\x7d".toList) (.seconds 0))]
  here := []
  clock := 0

/-- A page with the component, and one that has a head as well. -/
def navPage : Text := "\x7b\x7bcommon/nav\x7d\x7d".toList

def titledPage : Text := "<head><title>Nav</title></head>\x7b\x7bcommon/nav\x7d\x7d".toList

def navLink : Text := "<link rel=\"stylesheet\" href=\"/src/common/nav/style.scss\">".toList

theorem textIn_capitalLayout : textIn navDisk listSite.layoutFile = .ok capitalLayout := by
  cbv

def navComponent : Component where
  token := "common/nav".toList
  markup := (listSite.componentRoot "common/nav".toList).join listSite.componentMarkup
  stylesheet := some ((listSite.componentRoot "common/nav".toList).join listSite.componentStylesheet)
  script := none

theorem found_nav : found listSite navDisk "common/nav".toList = .ok (some navComponent) := by
  have hmarkup : Component.fileIn? navDisk navComponent.markup = .ok (some navComponent.markup) := by cbv
  have hstylesheet : Component.fileIn? navDisk ((listSite.componentRoot "common/nav".toList).join
      listSite.componentStylesheet) = .ok navComponent.stylesheet := by cbv
  have hscript : Component.fileIn? navDisk ((listSite.componentRoot "common/nav".toList).join
      listSite.componentScript) = .ok none := by cbv
  have hpath : navComponent.markup =
      (listSite.componentRoot "common/nav".toList).join listSite.componentMarkup := rfl
  rw [hpath] at hmarkup
  unfold found
  simp only [hmarkup, hstylesheet, hscript]
  rfl

theorem headTags_nav : headTags listSite navComponent = [navLink] := by
  have hlink : Component.stylesheetTag listSite "common/nav".toList = navLink := by decide
  exact congrArg (fun tag => [tag]) hlink

theorem markupIn_nav : Component.markupIn listSite navDisk "common/nav".toList = .ok (some "<nav></nav>".toList) := by
  have hread : navDisk.readBytes navComponent.markup = .ok (Utf8.encode "<nav></nav>".toList) := by cbv
  have hplain : '\r' ∉ "<nav></nav>".toList := by decide
  unfold Component.markupIn
  simp only [found_nav]
  rw [Reading.textIn_of_readBytes hread, Newline.normalize_of_not_mem hplain]
  rfl

theorem mem_of_reaches_nav {document t : Text} (hdocument : Component.tokens listSite document = ["common/nav".toList])
    (h : Reaches listSite navDisk document t) : t = "common/nav".toList := by
  have hnone : Component.tokens listSite "<nav></nav>".toList = [] := by cbv
  refine List.mem_singleton.1 (Component.mem_of_reaches (fun t ht => hdocument ▸ ht) ?_ h)
  rintro t ht u ⟨m, hm, hu⟩
  rw [List.mem_singleton.1 ht, markupIn_nav] at hm
  cases hm
  rw [hnone] at hu
  cases hu

theorem expands_nav {document : Text} (h : Component.references listSite document = ["common/nav".toList]) :
    Expands listSite navDisk [] document (Component.filled listSite document ["<nav></nav>".toList])
      ["common/nav".toList] := by
  have htoken : Text.trim "common/nav".toList = "common/nav".toList := by cbv
  have htrim : Text.trim "<nav></nav>".toList = "<nav></nav>".toList := by cbv
  have hnone : Component.references listSite "<nav></nav>".toList = [] := by cbv
  have hrender : Variable.render (Component.filled listSite "<nav></nav>".toList []) [] =
      .ok "<nav></nav>".toList := by cbv
  have hnested : Component.Replaces listSite navDisk [] (Component.references listSite "<nav></nav>".toList) [] [] := by
    rw [hnone]
    exact .nil
  have hreplaces : Component.Replaces listSite navDisk [] ["common/nav".toList]
      [Text.trim "<nav></nav>".toList] [Text.trim "common/nav".toList] :=
    .component (htoken.symm ▸ markupIn_nav) hnested hrender .nil
  rw [htoken, htrim] at hreplaces
  exact ⟨_, h.symm ▸ hreplaces, rfl⟩

theorem inject_nav {document : Text} (h : Component.references listSite document = ["common/nav".toList]) (l : Log) :
    (outcome (Component.inject listSite [] document) navDisk l).1 =
      .ok (Html.appendToHead (Component.filled listSite document ["<nav></nav>".toList]) navLink) := by
  obtain ⟨used, hout, htokens, -, hused⟩ := (expands_nav h).inject l
  have heq : used = [navComponent] := by
    refine Component.eq_of_map_token ?_ hused fun c hc => ?_
    · rw [htokens]
      cbv
    · rw [List.mem_singleton.1 hc]
      exact found_nav
  rw [hout, heq, List.flatMap_singleton, headTags_nav]
  rfl

theorem assemble_of_injected {document html : Text} {fragment : Text}
    (hcomposed : (outcome (composed listSite "about".toList false fragment) navDisk []).1 = .ok document)
    (hinject : ∀ l, (outcome (Component.inject listSite [] document) navDisk l).1 = .ok html) (hfree : '\x7b' ∉ html) :
    (outcome (assemble listSite [] "about".toList false fragment) navDisk []).1 = .ok html := by
  rw [outcome_assemble]
  rcases hdocument : outcome (composed listSite "about".toList false fragment) navDisk [] with ⟨result, l⟩
  rw [hdocument] at hcomposed
  cases hcomposed
  refine bind_ok (hinject l) fun l => ?_
  refine bind_ok (by rw [outcome_expandRepeats, Repeat.expand_of_not_mem hfree]; rfl) fun l => ?_
  rw [outcome_renderVariables, Variable.render_of_not_mem hfree]
  rfl

/-- The document of the page with a head, with the component in its place, and with the link. -/
def titledDocument : Text := "<html><HEAD>    <title>Nav</title>\n</head><body><main>\n        ".toList ++
  "\x7b\x7bcommon/nav\x7d\x7d\n    </main></body></html>".toList

def titledHtml : Text := "<html><HEAD>    <title>Nav</title>\n    ".toList ++ navLink ++
  "\n</head><body><main>\n        <nav></nav>\n    </main></body></html>".toList

theorem composed_of_merge {fragment document : Text} (hunroll : Repeat.expand fragment = .ok fragment)
    (hmerge : Layout.merge capitalLayout
      (Layout.rebaseHead listSite "about".toList (Layout.splitFragment fragment).1)
      (Layout.splitFragment fragment).2 = document) (l : Log) :
    (outcome (composed listSite "about".toList false fragment) navDisk l).1 = .ok document := by
  refine bind_ok (by rw [outcome_expandRepeats, hunroll]; rfl) fun l => ?_
  rw [Layout.compose_of_shell textIn_capitalLayout, hmerge]

theorem composed_titled (l : Log) :
    (outcome (composed listSite "about".toList false titledPage) navDisk l).1 = .ok titledDocument :=
  composed_of_merge (by cbv) (by cbv) l

theorem inject_titled (l : Log) :
    (outcome (Component.inject listSite [] titledDocument) navDisk l).1 = .ok titledHtml := by
  have hreferences : Component.references listSite titledDocument = ["common/nav".toList] := by cbv
  have hfilled : Html.appendToHead (Component.filled listSite titledDocument ["<nav></nav>".toList]) navLink =
      titledHtml := by cbv
  rw [inject_nav hreferences, hfilled]

theorem unmarked_of_all {name : Text}
    (h : (name.all fun c => (c ≠ '"' ∧ c ≠ '<' ∧ c ≠ '>') ∧ c ≠ '\x7b' ∧ c ≠ '\x7d') = true) :
    Component.Unmarked name := by
  simp only [List.all_eq_true, decide_eq_true_eq] at h
  exact ⟨⟨fun hc => (h _ hc).1.1 rfl, fun hc => (h _ hc).1.2.1 rfl, fun hc => (h _ hc).1.2.2 rfl⟩,
    fun c hc => (h c hc).2⟩

theorem tokens_titled : Component.tokens listSite titledDocument = ["common/nav".toList] := by
  cbv

theorem linkable_titled : Linkable listSite navDisk titledDocument := by
  refine ⟨unmarked_of_all (by decide), unmarked_of_all (by decide), unmarked_of_all (by decide), fun t ht => ?_⟩
  rw [mem_of_reaches_nav tokens_titled ht]
  exact unmarked_of_all (by decide)

theorem closesHead_titled : Layout.ClosesHead listSite "about".toList capitalLayout titledPage := by
  have hhead : (Layout.splitFragment titledPage).1 = "<title>Nav</title>".toList := by cbv
  have hmain : Scan.first? Html.main (Layout.withHead capitalLayout
      (Layout.rebaseHead listSite "about".toList "<title>Nav</title>".toList)) =
      some ("<html><HEAD>    <title>Nav</title>\n".toList ++ closeHead ++ "<body>".toList, [],
        "</body></html>".toList) := by cbv
  refine ⟨by cbv, .inl (by rw [hhead]; decide), fun before inner rest hfirst => .inl ?_⟩
  rw [hhead, hmain] at hfirst
  cases hfirst
  exact ⟨_, _, rfl⟩

set_option maxRecDepth 4000 in
/-- The head of the page ends the head of its document in lower case, and the component is linked there. -/
theorem assemble_links_components_titled : Linkable listSite navDisk titledDocument ∧
    Layout.ClosesHead listSite "about".toList capitalLayout titledPage ∧ navLink <:+: titledHtml := by
  have hfree : '\x7b' ∉ titledHtml := by decide
  have hok := assemble_of_injected (composed_titled []) inject_titled hfree
  obtain ⟨document, expanded, injected, uses, hcomposed, -, hinject, -, hlinks⟩ :=
    assemble_links_components listSite [] navDisk "about".toList false titledPage [] titledHtml hok
  rw [composed_titled] at hcomposed
  cases hcomposed
  have hinjected := (inject_titled []).symm.trans (hinject [])
  cases hinjected
  obtain ⟨htags, hcloses⟩ := hlinks linkable_titled
  have hclose := hcloses ⟨capitalLayout, titledPage, textIn_capitalLayout, by cbv, closesHead_titled⟩
  have hkeeps : Repeat.Keeps navLink (Repeat.parse titledHtml) := by
    have hparse : Repeat.parse titledHtml = [.text titledHtml] := by cbv
    rw [hparse, Repeat.Keeps, Repeat.Keeps]
    trivial
  have hreaches : Reaches listSite navDisk titledDocument "common/nav".toList :=
    Component.reaches_of_mem (tokens_titled ▸ List.mem_singleton_self _)
  exact ⟨linkable_titled, closesHead_titled, htags hclose _ _ hreaches found_nav navLink
    (headTags_nav ▸ List.mem_singleton_self _) hkeeps⟩

/-- The document of the page without a head, and with the component in its place. -/
def headlessDocument : Text :=
  "<html><HEAD></HEAD><body><main>\n        \x7b\x7bcommon/nav\x7d\x7d\n    </main></body></html>".toList

def headlessHtml : Text := "<html><HEAD></HEAD><body><main>\n        <nav></nav>\n    </main></body></html>".toList

/-- With the same layout a page without a head is assembled without the link to the stylesheet of its component. -/
theorem assemble_loses_links : textIn navDisk listSite.layoutFile = .ok capitalLayout ∧
    (Scan.first? Html.headEnd capitalLayout).isSome ∧
    Repeat.expand navPage = .ok navPage ∧
    (outcome (composed listSite "about".toList false navPage) navDisk []).1 = .ok headlessDocument ∧
    Reaches listSite navDisk headlessDocument navComponent.token ∧
    found listSite navDisk navComponent.token = .ok (some navComponent) ∧
    navLink ∈ headTags listSite navComponent ∧
    (outcome (assemble listSite [] "about".toList false navPage) navDisk []).1 = .ok headlessHtml ∧
    ¬ navLink <:+: headlessHtml := by
  have hcomposed : ∀ l, (outcome (composed listSite "about".toList false navPage) navDisk l).1 =
      .ok headlessDocument := composed_of_merge (by cbv) (by cbv)
  have hreferences : Component.references listSite headlessDocument = ["common/nav".toList] := by cbv
  have htokens : Component.tokens listSite headlessDocument = ["common/nav".toList] := by cbv
  have hfilled : Html.appendToHead (Component.filled listSite headlessDocument ["<nav></nav>".toList]) navLink =
      headlessHtml := by cbv
  have hinject : ∀ l, (outcome (Component.inject listSite [] headlessDocument) navDisk l).1 = .ok headlessHtml :=
    fun l => hfilled ▸ inject_nav hreferences l
  have hnone : '"' ∉ headlessHtml := by decide
  refine ⟨textIn_capitalLayout, by cbv, by cbv, hcomposed [],
    Component.reaches_of_mem (htokens ▸ List.mem_singleton_self _), found_nav,
    headTags_nav ▸ List.mem_singleton_self _, assemble_of_injected (hcomposed []) hinject (by decide), fun hin => ?_⟩
  exact hnone (hin.subset (by decide))

end Assembly
end Sitewright
