import Sitewright.Proofs.Component.Trail
import Sitewright.Proofs.Template.Passage
/-!
# Links of components

The components that an expansion uses are those that the text reaches. Where their names are plain and the expansion
ends a head in lower case, their tags stand in the text into which they are injected.

* `Component.Unmarked`: a name that can stand in a tag.
* `Component.Linkable`: the names of the components that a document reaches can stand in tags.

Main statement: `Component.Expands.tags_injected`.
-/
set_option autoImplicit false

namespace Sitewright.Component

open Html (closeHead_eq PlainUrl)

variable {site : Site} {d : Disk} {tree : Variables} {page : Text}

/-- A component that a reference leads to is used, if its references are replaced. -/
theorem Replaces.mem_uses {raws texts uses : List Text} (h : Replaces site d tree raws texts uses) {t : Text}
    {c : Component} (hfound : found site d t = .ok (some c)) :
    ∀ raw ∈ raws, Relation.ReflTransGen (Refers site d) (Text.trim raw) t → t ∈ uses := by
  induction h with
  | nil => exact fun raw hraw => absurd hraw List.not_mem_nil
  | @missing raw raws texts uses hmissing _ ih =>
    refine List.forall_mem_cons.2 ⟨fun hpath => ?_, ih⟩
    rcases hpath.cases_head with heq | ⟨u, ⟨m, hm, -⟩, -⟩
    · rw [heq] at hmissing
      rw [found_of_markupIn_none hmissing] at hfound
      cases hfound
    · rw [hmissing] at hm
      cases hm
  | @component raw markup rendered inner innerUses raws texts uses hmarkup _ _ _ ihNested ihRest =>
    refine List.forall_mem_cons.2 ⟨fun hpath => ?_, fun raw' hraw' hpath => ?_⟩
    · rcases hpath.cases_head with heq | ⟨u, ⟨m, hm, hu⟩, hpath⟩
      · exact heq ▸ List.mem_cons_self
      · rw [hmarkup] at hm
        cases hm
        obtain ⟨raw', hraw', rfl⟩ := List.mem_map.1 hu
        exact List.mem_cons_of_mem _ (List.mem_append_left _ (ihNested raw' hraw' hpath))
    · exact List.mem_cons_of_mem _ (List.mem_append_right _ (ihRest raw' hraw' hpath))

theorem Expands.mem_uses {e : Text} {uses : List Text} (h : Expands site d tree page e uses) {t : Text} {c : Component}
    (hreaches : Reaches site d page t) (hfound : found site d t = .ok (some c)) : t ∈ uses := by
  obtain ⟨texts, hreplaces, -⟩ := h
  obtain ⟨u, hu, hpath⟩ := hreaches
  obtain ⟨raw, hraw, rfl⟩ := List.mem_map.1 hu
  exact hreplaces.mem_uses hfound raw hraw hpath

theorem Replaces.reaches {raws texts uses : List Text} (h : Replaces site d tree raws texts uses) :
    ∀ t ∈ uses, ∃ raw ∈ raws, Relation.ReflTransGen (Refers site d) (Text.trim raw) t := by
  induction h with
  | nil => exact fun t ht => absurd ht List.not_mem_nil
  | missing _ _ ih =>
    intro t ht
    obtain ⟨raw, hraw, hpath⟩ := ih t ht
    exact ⟨raw, List.mem_cons_of_mem _ hraw, hpath⟩
  | @component raw markup rendered inner innerUses raws texts uses hmarkup _ _ _ ihNested ihRest =>
    intro t ht
    rcases List.mem_cons.1 ht with rfl | ht
    · exact ⟨raw, List.mem_cons_self, .refl⟩
    · rcases List.mem_append.1 ht with ht | ht
      · obtain ⟨raw', hraw', hpath⟩ := ihNested t ht
        exact ⟨raw, List.mem_cons_self, .head ⟨markup, hmarkup, trim_mem_tokens hraw'⟩ hpath⟩
      · obtain ⟨raw', hraw', hpath⟩ := ihRest t ht
        exact ⟨raw', List.mem_cons_of_mem _ hraw', hpath⟩

theorem Expands.reaches {e : Text} {uses : List Text} (h : Expands site d tree page e uses) :
    ∀ t ∈ uses, Reaches site d page t := by
  obtain ⟨texts, hreplaces, -⟩ := h
  intro t ht
  obtain ⟨raw, hraw, hpath⟩ := hreplaces.reaches t ht
  exact ⟨Text.trim raw, trim_mem_tokens hraw, hpath⟩

/-- An end of the head stays in an expansion where no reference of the text holds an opening bracket. -/
theorem Expands.closeHead {e : Text} {uses : List Text} (h : Expands site d tree page e uses)
    (hin : Html.closeHead <:+: page) (hrefs : ∀ raw ∈ references site page, '<' ∉ raw) : Html.closeHead <:+: e := by
  obtain ⟨texts, -, rfl⟩ := h
  have hquiet : Scan.Quiet (reference site.componentNamespace) Html.closeHead :=
    (Template.braced_reference _).quiet (by decide)
  refine Scan.infix_fill hquiet hin (fun raw source hmark => ?_) texts
  have hraw : '<' ∉ raw := hrefs raw (by
    rw [references, Scan.marks_eq]
    exact List.mem_map.2 ⟨(raw, source), Scan.mem_markPieces.2 hmark, rfl⟩)
  have hsource : '<' ∉ source := by
    rw [source_of_reference hmark]
    exact fun hin => hraw (by simpa [Template.braces] using hin)
  rw [closeHead_eq]
  exact Scan.misses_of_not_mem hsource

/-! ## Tags -/

/-- The name holds no quote, no angle bracket and no brace. -/
structure Unmarked (name : Text) : Prop where
  url : PlainUrl name
  free : Template.BraceFree name

/-- The names of which the tags of a document's components are made can stand in tags. -/
structure Linkable (site : Site) (d : Disk) (document : Text) : Prop where
  dir : Unmarked site.componentsDir
  stylesheet : Unmarked site.componentStylesheet
  script : Unmarked site.componentScript
  tokens : ∀ t, Reaches site d document t → Unmarked t

theorem braceFree_componentUrl {token file : Text} (hdir : Unmarked site.componentsDir) (htoken : Unmarked token)
    (hfile : Unmarked file) : Template.BraceFree (site.componentUrl token file) := by
  have hslash : ∀ {s : Text}, Template.BraceFree s → Template.BraceFree ('/' :: s) := fun h =>
    List.forall_mem_cons.2 ⟨by decide, h⟩
  exact ((hslash hdir.free).append (hslash htoken.free)).append (hslash hfile.free)

theorem Linkable.tag_words {document : Text} (h : Linkable site d document) {c : Component}
    (hreaches : Reaches site d document c.token) {tag : Text} (htag : tag ∈ headTags site c) :
    Template.BraceFree tag ∧ ∃ word x behind, tag = '<' :: (word ++ ' ' :: x :: behind) ∧ Text.isBlank x = false := by
  have htoken := h.tokens _ hreaches
  rcases mem_headTags htag with rfl | rfl
  · have hurl := braceFree_componentUrl h.dir htoken h.stylesheet
    have hopen : Template.BraceFree "<link rel=\"stylesheet\" href=\"".toList := by decide
    have hclose : Template.BraceFree "\">".toList := by decide
    exact ⟨(hopen.append hurl).append hclose, "link".toList, 'r', _, rfl, by decide⟩
  · have hurl := braceFree_componentUrl h.dir htoken h.script
    have hopen : Template.BraceFree "<script type=\"module\" src=\"".toList := by decide
    have hclose : Template.BraceFree "\"></script>".toList := by decide
    exact ⟨(hopen.append hurl).append hclose, "script".toList, 't', _, rfl, by decide⟩

theorem Linkable.not_mem_reference {document : Text} (h : Linkable site d document) :
    ∀ raw ∈ references site document, '<' ∉ raw := by
  intro raw hraw hmem
  have hplain := h.tokens _ (reaches_of_mem (trim_mem_tokens hraw))
  obtain ⟨u, v, htrim, hu, hv⟩ := Template.exists_trim raw
  have hblank : Text.isBlank '<' = false := by decide
  rw [htrim] at hmem
  rcases List.mem_append.1 hmem with hmem | hmem
  · exact absurd (hu _ hmem) (by rw [hblank]; decide)
  · rcases List.mem_append.1 hmem with hmem | hmem
    · exact hplain.url.noOpen hmem
    · exact absurd (hv _ hmem) (by rw [hblank]; decide)

/-- Where an expansion ends a head in lower case, the tags of the components reached stand in the injection. -/
theorem Expands.tags_injected {e injected : Text} {uses : List Text} (h : Expands site d tree page e uses)
    (hlinkable : Linkable site d page) {l : Log}
    (hout : (Reading.outcome (Component.inject site tree page) d l).1 = .ok injected)
    (hclose : Html.closeHead <:+: e) {t : Text} {c : Component} (hreaches : Reaches site d page t)
    (hfound : found site d t = .ok (some c)) {tag : Text} (htag : tag ∈ headTags site c) : tag <:+: injected := by
  obtain ⟨used, hinject, htokens, hnodup, hused⟩ := h.inject l
  rw [hinject] at hout
  cases hout
  have hplain : ∀ t ∈ used.map (·.token), PlainUrl t := by
    intro t ht
    rw [htokens] at ht
    exact (hlinkable.tokens t (h.reaches t (List.mem_eraseDups.1 ht))).url
  have hassets : PlainAssets site := ⟨hlinkable.dir.url, hlinkable.stylesheet.url, hlinkable.script.url⟩
  have hmem : c ∈ used := by
    have ht : t ∈ used.map (·.token) := htokens ▸ List.mem_eraseDups.2 (h.mem_uses hreaches hfound)
    obtain ⟨c', hc', rfl⟩ := List.mem_map.1 ht
    have hsame := (hused c' hc').symm.trans hfound
    cases hsame
    exact hc'
  obtain ⟨before, rest, hcut⟩ : ∃ before rest, Text.cutAt? Html.closeHead e = some (before, rest) := by
    cases hcut : Text.cutAt? Html.closeHead e with
    | some cut => exact ⟨cut.1, cut.2, rfl⟩
    | none =>
      rw [Text.cutAt?_eq_none_iff, Text.contains_iff_infix.2 hclose] at hcut
      cases hcut
  have hspec := foldl_appendToHead_spec hcut (hassets.assetTag hplain) (nodup_flatMap_headTags hnodup)
  exact (hspec.2 tag (List.mem_flatMap.2 ⟨c, hmem, htag⟩)).1

end Sitewright.Component
