import Sitewright.Proofs.Component.Outline
import Sitewright.Proofs.Html.Head
/-!
# Head tags of the components of a page

An injection expands a page and then adds the tags of the components used, one after the other, to a document
that grows. For plain names the result is told by the expansion alone: one block of lines stands before the
first end of the head, with the tags that the expansion does not hold, in the order in which components are
used first.

Main statement: `inject_adds_tags`.
-/
set_option autoImplicit false

namespace Sitewright.Component

open Reading (outcome)
open Html (PlainUrl AssetTag closeHead headLines linkFront scriptFront scriptEnd)

variable {site : Site} {d : Disk} {tree : Variables} {page : Text}

/-! ## Tags -/

theorem plainUrl_componentUrl {token file : Text} (hdir : PlainUrl site.componentsDir) (htoken : PlainUrl token)
    (hfile : PlainUrl file) : PlainUrl (site.componentUrl token file) := by
  constructor
  · simp [Site.componentUrl, hdir.noQuote, htoken.noQuote, hfile.noQuote]
  · simp [Site.componentUrl, hdir.noOpen, htoken.noOpen, hfile.noOpen]
  · simp [Site.componentUrl, hdir.noClose, htoken.noClose, hfile.noClose]

theorem componentUrl_inj {token token' file : Text} (h : site.componentUrl token file = site.componentUrl token' file) :
    token = token' := by
  simpa [Site.componentUrl] using h

theorem linkOpen_eq : "<link rel=\"stylesheet\" href=\"".toList = '<' :: linkFront := by decide

theorem linkClose_eq : "\">".toList = ['"', '>'] := by decide

theorem scriptOpen_eq : "<script type=\"module\" src=\"".toList = '<' :: scriptFront := by decide

theorem scriptClose_eq : "\"></script>".toList = ['"', '>'] ++ scriptEnd := by decide

theorem stylesheetTag_eq (site : Site) (token : Text) : stylesheetTag site token =
    '<' :: (linkFront ++ site.componentUrl token site.componentStylesheet ++ ['"', '>']) := by
  unfold stylesheetTag
  rw [linkOpen_eq, linkClose_eq]
  simp only [List.cons_append]

theorem scriptTag_eq (site : Site) (token : Text) : scriptTag site token =
    '<' :: (scriptFront ++ site.componentUrl token site.componentScript ++ ['"', '>'] ++ scriptEnd) := by
  unfold scriptTag
  rw [scriptOpen_eq, scriptClose_eq]
  simp only [List.cons_append, List.append_assoc]

theorem stylesheetTag_inj {token token' : Text} (h : stylesheetTag site token = stylesheetTag site token') :
    token = token' := by
  rw [stylesheetTag_eq, stylesheetTag_eq] at h
  have htail := (List.cons.inj h).2
  exact componentUrl_inj (List.append_cancel_left (List.append_cancel_right htail))

theorem scriptTag_inj {token token' : Text} (h : scriptTag site token = scriptTag site token') :
    token = token' := by
  rw [scriptTag_eq, scriptTag_eq] at h
  have htail := List.append_cancel_right (List.append_cancel_right (List.cons.inj h).2)
  exact componentUrl_inj (List.append_cancel_left htail)

theorem mem_headTags {c : Component} {tag : Text} (h : tag ∈ headTags site c) :
    tag = stylesheetTag site c.token ∨ tag = scriptTag site c.token := by
  unfold headTags at h
  rcases List.mem_append.1 h with h | h
  · split at h
    · exact .inl (List.mem_singleton.1 h)
    · cases h
  · split at h
    · exact .inr (List.mem_singleton.1 h)
    · cases h

theorem stylesheetTag_ne_scriptTag (token token' : Text) : stylesheetTag site token ≠ scriptTag site token' := by
  have hlink : linkFront = 'l' :: "ink rel=\"stylesheet\" href=\"".toList := by decide
  have hscript : scriptFront = 's' :: "cript type=\"module\" src=\"".toList := by decide
  rw [stylesheetTag_eq, scriptTag_eq, hlink, hscript]
  simp

theorem nodup_headTags (c : Component) : (headTags site c).Nodup := by
  have hne : stylesheetTag site c.token ≠ scriptTag site c.token := stylesheetTag_ne_scriptTag _ _
  unfold headTags
  cases c.stylesheet.isSome <;> cases c.script.isSome <;> simp [hne]

theorem disjoint_headTags {c c' : Component} (h : c.token ≠ c'.token) :
    List.Disjoint (headTags site c) (headTags site c') := by
  intro tag htag htag'
  rcases mem_headTags htag with rfl | rfl <;> rcases mem_headTags htag' with heq | heq
  · exact h (stylesheetTag_inj heq)
  · exact stylesheetTag_ne_scriptTag _ _ heq
  · exact stylesheetTag_ne_scriptTag _ _ heq.symm
  · exact h (scriptTag_inj heq)

theorem nodup_flatMap_headTags {used : List Component} (h : (used.map (·.token)).Nodup) :
    (used.flatMap (headTags site)).Nodup := by
  refine List.nodup_flatMap.2 ⟨fun c _ => nodup_headTags c, ?_⟩
  exact (List.pairwise_map.1 h).imp fun hne => disjoint_headTags hne

/-- The names from which the tags of components are put together hold no quote and no angle bracket. -/
structure PlainAssets (site : Site) : Prop where
  dir : PlainUrl site.componentsDir
  stylesheet : PlainUrl site.componentStylesheet
  script : PlainUrl site.componentScript

theorem PlainAssets.assetTag (h : PlainAssets site) {used : List Component}
    (hused : ∀ t ∈ used.map (·.token), PlainUrl t) : ∀ tag ∈ used.flatMap (headTags site), AssetTag tag := by
  intro tag htag
  obtain ⟨c, hc, htag⟩ := List.mem_flatMap.1 htag
  have htoken : PlainUrl c.token := hused c.token (List.mem_map_of_mem hc)
  rcases mem_headTags htag with rfl | rfl
  · rw [stylesheetTag_eq]
    exact .stylesheet (plainUrl_componentUrl h.dir htoken h.stylesheet)
  · rw [scriptTag_eq]
    exact .script (plainUrl_componentUrl h.dir htoken h.script)

/-- Tags added one after the other make one block of the missing ones, and each of them stands in the result. -/
theorem foldl_appendToHead_spec {tags : List Text} {e before rest : Text}
    (hcut : Text.cutAt? closeHead e = some (before, rest)) (htags : ∀ t ∈ tags, AssetTag t)
    (hnodup : tags.Nodup) :
    tags.foldl Html.appendToHead e =
        before ++ headLines (tags.filter fun tag => ¬ tag <:+: e) ++ closeHead ++ rest ∧
      ∀ tag ∈ tags, tag <:+: tags.foldl Html.appendToHead e ∧
        (¬ tag <:+: e → ∃! pre, pre ++ tag <+: tags.foldl Html.appendToHead e) := by
  have he : e = before ++ (closeHead ++ rest) := by
    rw [Text.eq_of_cutAt? hcut, List.append_assoc]
  have hmissing : (tags.filter fun tag => !Text.contains tag e) = tags.filter fun tag => ¬ tag <:+: e := by
    refine List.filter_congr fun tag _ => ?_
    have hcontains : Text.contains tag e = decide (tag <:+: e) :=
      Bool.eq_iff_iff.2 (Text.contains_iff_infix.trans decide_eq_true_iff.symm)
    rw [hcontains, decide_not]
  have hfold := Html.foldl_appendToHead hcut htags hnodup
  rw [hmissing] at hfold
  have hlines : ∀ tag ∈ tags.filter (fun tag => ¬ tag <:+: e), AssetTag tag :=
    fun tag htag => htags tag (List.mem_of_mem_filter htag)
  rw [hfold]
  refine ⟨by simp, fun tag htag => ⟨?_, fun hnot => ?_⟩⟩
  · rw [← Text.contains_iff_infix, Html.contains_headLines (htags tag htag) hlines, ← he, Text.contains_iff_infix,
      List.mem_filter]
    by_cases hin : tag <:+: e
    · exact .inl hin
    · exact .inr ⟨htag, decide_eq_true hin⟩
  · refine Html.stands_once hlines (hnodup.filter _) (List.mem_filter.2 ⟨htag, decide_eq_true hnot⟩) ?_
    rw [← he, Bool.eq_false_iff]
    exact fun hin => hnot (Text.contains_iff_infix.1 hin)

/-! ## Injections -/

theorem expands_of_inject {log : Log} {out : Text} (h : (outcome (inject site tree page) d log).1 = .ok out) :
    ∃ e uses, Expands site d tree page e uses := by
  rw [outcome_inject, outcome_injectWithin] at h
  rcases hrun : runOn (expand site tree (boundOn d page) [] page) ⟨[], []⟩ d log with ⟨_ | ⟨e, i⟩, l⟩
  · rw [hrun] at h
    cases h
  · obtain ⟨-, uses, hexpands, -⟩ := Meets.expand _ _ _ _ _ _ _ _ (met_empty site d) hrun
    exact ⟨e, uses, hexpands⟩

theorem Expands.inject {e : Text} {uses : List Text} (h : Expands site d tree page e uses) (log : Log) :
    ∃ used : List Component, (outcome (Component.inject site tree page) d log).1 =
        .ok ((used.flatMap (headTags site)).foldl Html.appendToHead e) ∧
      used.map (·.token) = uses.eraseDups ∧ (used.map (·.token)).Nodup ∧
      ∀ c ∈ used, found site d c.token = .ok (some c) := by
  obtain ⟨i, l, hrun, hmet, hused⟩ := h.run log
  refine ⟨i.used, ?_, hused, hmet.nodup, fun c hc => (hmet.known.used c hc).1⟩
  rw [outcome_inject, outcome_injectWithin, hrun]

/-- Components that are found under their tokens are known by these. -/
theorem eq_of_map_token {used used' : List Component} (h : used.map (·.token) = used'.map (·.token))
    (hfound : ∀ c ∈ used, found site d c.token = .ok (some c))
    (hfound' : ∀ c ∈ used', found site d c.token = .ok (some c)) : used = used' := by
  have hinj : Function.Injective fun c : Component => (Except.ok (some c) : Except Failure (Option Component)) := by
    intro c c' hc
    exact Option.some.inj (Except.ok.inj hc)
  refine hinj.list_map ?_
  calc used.map (fun c => .ok (some c))
      = (used.map (·.token)).map (found site d) := by
        rw [List.map_map]
        exact (List.map_congr_left hfound).symm
    _ = (used'.map (·.token)).map (found site d) := by rw [h]
    _ = used'.map (fun c => .ok (some c)) := by
        rw [List.map_map]
        exact List.map_congr_left hfound'

theorem inject_ok_of_log {log : Log} {out : Text} (h : (outcome (inject site tree page) d log).1 = .ok out)
    (log' : Log) : (outcome (inject site tree page) d log').1 = .ok out := by
  obtain ⟨e, uses, hexpands⟩ := expands_of_inject h
  obtain ⟨used, hout, htokens, -, hfound⟩ := hexpands.inject log
  obtain ⟨used', hout', htokens', -, hfound'⟩ := hexpands.inject log'
  rw [hout', ← h, hout, eq_of_map_token (htokens.trans htokens'.symm) hfound hfound']

/-- For plain names an injection succeeds where the page expands, and only there. Without an end of a head its
result is the expansion. Otherwise the tags of the components used that the expansion does not hold stand on
lines of their own before the first end of the head, in the order in which the components are used first; and
every tag stands in the result, once if it does not stand in the expansion. -/
theorem inject_adds_tags (site : Site) (tree : Variables) (d : Disk) (page : Text) (log : Log)
    (hnames : PlainAssets site) :
    ((∃ out, (outcome (inject site tree page) d log).1 = .ok out) ↔
      ∃ e uses, Expands site d tree page e uses) ∧
    ∀ e uses, Expands site d tree page e uses → (∀ t ∈ uses, PlainUrl t) →
      ∃ (used : List Component) (out : Text), (outcome (inject site tree page) d log).1 = .ok out ∧
        used.map (·.token) = uses.eraseDups ∧ (∀ c ∈ used, found site d c.token = .ok (some c)) ∧
        (¬ closeHead <:+: e → out = e) ∧
        ∀ before rest, e = before ++ closeHead ++ rest →
          (∀ pre, pre ++ closeHead <+: e → before.length ≤ pre.length) →
          out = before ++ headLines ((used.flatMap (headTags site)).filter fun tag => ¬ tag <:+: e) ++
            closeHead ++ rest ∧
          ∀ tag ∈ used.flatMap (headTags site), tag <:+: out ∧
            (¬ tag <:+: e → ∃! pre, pre ++ tag <+: out) := by
  refine ⟨⟨fun ⟨out, h⟩ => expands_of_inject h, fun ⟨e, uses, h⟩ => ?_⟩, fun e uses h hplain => ?_⟩
  · obtain ⟨used, hout, -⟩ := h.inject log
    exact ⟨_, hout⟩
  · obtain ⟨used, hout, htokens, hnodup, hfound⟩ := h.inject log
    have htags : ∀ tag ∈ used.flatMap (headTags site), AssetTag tag := by
      refine hnames.assetTag fun t ht => hplain t ?_
      rw [htokens] at ht
      exact List.mem_eraseDups.1 ht
    have hdistinct : (used.flatMap (headTags site)).Nodup := nodup_flatMap_headTags hnodup
    refine ⟨used, _, hout, htokens, hfound, fun hnone => ?_, fun before rest hsplit hfirst => ?_⟩
    · have hcut : Text.cutAt? closeHead e = none := by
        rw [Text.cutAt?_eq_none_iff, Bool.eq_false_iff]
        exact fun hin => hnone (Text.contains_iff_infix.1 hin)
      exact Html.foldl_appendToHead_of_none hcut
    · have hcut : Text.cutAt? closeHead e = some (before, rest) := Text.cutAt?_eq_some_iff.2 ⟨hsplit, hfirst⟩
      exact foldl_appendToHead_spec hcut htags hdistinct

/-! ## A page with nested components -/

/-- The markups of a component that includes another one, and of that one. -/
def nestingMarkup : Text := "<b>\x7b\x7bcommon/b\x7d\x7d</b>".toList
def nestedMarkup : Text := " <i></i> ".toList

/-- A project of two components, of which the first one has a stylesheet and a script, the second one a
stylesheet. -/
def nestingDisk : Disk where
  tree :=
    let common : Location := ["project".toList, "src".toList, "common".toList]
    [([], .directory), (["project".toList], .directory), (["project".toList, "src".toList], .directory),
      (common, .directory), (common ++ ["a".toList], .directory), (common ++ ["b".toList], .directory),
      (common ++ ["a".toList, "index.html".toList], .file (Utf8.encode nestingMarkup) (.seconds 0)),
      (common ++ ["a".toList, "style.scss".toList], .file [] (.seconds 0)),
      (common ++ ["a".toList, "script.ts".toList], .file [] (.seconds 0)),
      (common ++ ["b".toList, "index.html".toList], .file (Utf8.encode nestedMarkup) (.seconds 0)),
      (common ++ ["b".toList, "style.scss".toList], .file [] (.seconds 0))]
  here := []
  clock := 0

/-- A page that includes the first of the two components. -/
def nestingPage : Text := "<head></head>\x7b\x7bcommon/a\x7d\x7d".toList

/-- The page with its components put in, before tags are added. -/
def nestingBody : Text := "<b><i></i></b>".toList

theorem replaces_nested : Replaces loopSite nestingDisk [] ["common/b".toList] [Text.trim nestedMarkup]
    ["common/b".toList] := by
  have htoken : Text.trim "common/b".toList = "common/b".toList := by cbv
  have hnested : references loopSite nestedMarkup = [] := by cbv
  have hmarkup : markupIn loopSite nestingDisk (Text.trim "common/b".toList) = .ok (some nestedMarkup) := by cbv
  have hrender : Variable.render (filled loopSite nestedMarkup []) [] = .ok nestedMarkup := by cbv
  have hnone : Replaces loopSite nestingDisk [] (references loopSite nestedMarkup) [] [] := by
    rw [hnested]
    exact .nil
  have h : Replaces loopSite nestingDisk [] ["common/b".toList] [Text.trim nestedMarkup]
      [Text.trim "common/b".toList] := .component hmarkup hnone hrender .nil
  rwa [htoken] at h

theorem replaces_nesting : Replaces loopSite nestingDisk [] ["common/a".toList] [Text.trim nestingBody]
    ["common/a".toList, "common/b".toList] := by
  have htoken : Text.trim "common/a".toList = "common/a".toList := by cbv
  have hnesting : references loopSite nestingMarkup = ["common/b".toList] := by cbv
  have hmarkup : markupIn loopSite nestingDisk (Text.trim "common/a".toList) = .ok (some nestingMarkup) := by cbv
  have hrender : Variable.render (filled loopSite nestingMarkup [Text.trim nestedMarkup]) [] = .ok nestingBody := by
    cbv
  have h : Replaces loopSite nestingDisk [] ["common/a".toList] [Text.trim nestingBody]
      [Text.trim "common/a".toList, "common/b".toList] :=
    .component hmarkup (hnesting.symm ▸ replaces_nested) hrender .nil
  rwa [htoken] at h

theorem expands_nesting : Expands loopSite nestingDisk [] nestingPage ("<head>".toList ++ closeHead ++ nestingBody)
    ["common/a".toList, "common/b".toList] := by
  have hpage : references loopSite nestingPage = ["common/a".toList] := by cbv
  have hfilled : "<head>".toList ++ closeHead ++ nestingBody =
      filled loopSite nestingPage [Text.trim nestingBody] := by cbv
  exact ⟨_, hpage.symm ▸ replaces_nesting, hfilled⟩

theorem plainUrl_of_all {url : Text} (h : (url.all fun c => c ≠ '"' ∧ c ≠ '<' ∧ c ≠ '>') = true) :
    PlainUrl url := by
  simp only [List.all_eq_true, decide_eq_true_eq] at h
  exact ⟨fun hc => (h _ hc).1 rfl, fun hc => (h _ hc).2.1 rfl, fun hc => (h _ hc).2.2 rfl⟩

/-- The tags of the two components come in the order of their first use, and each of them stands once in the
result. -/
theorem inject_adds_tags_nesting :
    ∃ (used : List Component) (out : Text),
      (outcome (inject loopSite [] nestingPage) nestingDisk []).1 = .ok out ∧
      used.map (·.token) = ["common/a".toList, "common/b".toList] ∧
      out = "<head>".toList ++ headLines (used.flatMap (headTags loopSite)) ++ closeHead ++ nestingBody ∧
      ∀ tag ∈ used.flatMap (headTags loopSite), ∃! pre, pre ++ tag <+: out := by
  have hnames : PlainAssets loopSite :=
    ⟨plainUrl_of_all (by decide), plainUrl_of_all (by decide), plainUrl_of_all (by decide)⟩
  have hplain : ∀ t ∈ ["common/a".toList, "common/b".toList], PlainUrl t := by
    intro t ht
    rcases List.mem_pair.1 ht with rfl | rfl
    · exact plainUrl_of_all (by decide)
    · exact plainUrl_of_all (by decide)
  obtain ⟨used, out, hout, htokens, -, -, hhead⟩ :=
    (inject_adds_tags loopSite [] nestingDisk nestingPage [] hnames).2 _ _ expands_nesting hplain
  have hcut : Text.cutAt? closeHead ("<head>".toList ++ closeHead ++ nestingBody) =
      some ("<head>".toList, nestingBody) := by cbv
  obtain ⟨hsplit, hfirst⟩ := Text.cutAt?_eq_some_iff.1 hcut
  obtain ⟨hlines, htags⟩ := hhead _ _ hsplit hfirst
  have hnew : ∀ tag ∈ used.flatMap (headTags loopSite),
      ¬ tag <:+: "<head>".toList ++ closeHead ++ nestingBody := by
    intro tag htag hin
    obtain ⟨c, _, hc⟩ := List.mem_flatMap.1 htag
    have hquote : '"' ∈ tag := by
      rcases mem_headTags hc with rfl | rfl
      · simp [stylesheetTag_eq]
      · simp [scriptTag_eq]
    have hnone : '"' ∉ "<head>".toList ++ closeHead ++ nestingBody := by decide
    exact hnone (hin.subset hquote)
  refine ⟨used, out, hout, by rw [htokens]; cbv, ?_, fun tag htag => (htags tag htag).2 (hnew tag htag)⟩
  rw [hlines, List.filter_eq_self.2 fun tag htag => decide_eq_true (hnew tag htag)]

end Sitewright.Component
