import Sitewright.Proofs.Component.Collection
import Sitewright.Proofs.Component.Outline
import Sitewright.Proofs.Site
import Sitewright.Proofs.Template.Printing
/-!
# References as they are written

A page is written as texts with a reference between each two of them. No text holds two opening braces in a row and no
path a closing brace; apart from that they may hold anything, and the namespace may be any text. A scan of the page
meets the references that were written there: an opening brace at the end of a text and a closing one at its begin do
not shift them. What takes the place of the references stands between the same texts, and is not scanned again.

* `Separator`, `Stretch`: a text between references, and a text with the path of the reference behind it.
* `Draft`: a page in its stretches and a last text.
* `weave`: what is read when other texts stand in the place of the references.

Main statements: `scan_weave`, `references_recovered`, and for the two walks over references `Draft.expand_text` and
`Draft.follow_text`.
-/
set_option autoImplicit false

namespace Sitewright.Component

open Repeat (openBraces)
open Template (braces braces_ne_nil braced_reference reference_of_path)

/-! ## Pages before they are written -/

structure Separator where
  text : Text
  apart : Text.contains openBraces text = false

structure Stretch where
  front : Separator
  path : Text
  nonempty : path ≠ []
  closed : '\x7d' ∉ path

structure Draft where
  stretches : List Stretch
  last : Separator

def Stretch.body (space : Text) (e : Stretch) : Text := space ++ '/' :: e.path

def Stretch.source (space : Text) (e : Stretch) : Text := braces (e.body space)

/-- The texts of some stretches with one text after the other behind them, and a last text. Where no text is left,
nothing is put in. -/
def weave (last : Separator) : List Stretch → List Text → Text
  | [], _ => last.text
  | e :: rest, [] => e.front.text ++ weave last rest []
  | e :: rest, t :: texts => e.front.text ++ (t ++ weave last rest texts)

namespace Draft

/-- The page with one text after the other in the place of its references. -/
def filledWith (page : Draft) (texts : List Text) : Text := weave page.last page.stretches texts

def text (space : Text) (page : Draft) : Text := page.filledWith (page.stretches.map (Stretch.source space))

/-- The references of the page: what stands between the braces of each, and how it is written. -/
def marks (space : Text) (page : Draft) : List (Text × Text) :=
  page.stretches.map fun e => (e.body space, e.source space)

end Draft

variable {site : Site} {space v : Text}

/-! ## No reference begins early -/

theorem eq_of_cons_append {c b : Char} {w x y : Text} (h : c :: (w ++ x) = w ++ b :: y) : c = b := by
  induction w with
  | nil => exact (List.cons.inj h).1
  | cons a w ih =>
    obtain ⟨rfl, htail⟩ := List.cons.inj h
    exact ih htail

theorem reference_brace (e : Stretch) (v : Text) : reference space ('\x7b' :: (e.source space ++ v)) = none := by
  have hshape : e.source space ++ v =
      '\x7b' :: '\x7b' :: (space ++ '/' :: (e.path ++ '\x7d' :: '\x7d' :: v)) := by
    simp [Stretch.source, Stretch.body, braces]
  have hafter : Text.after? (space ++ ['/'])
      ('\x7b' :: (space ++ '/' :: (e.path ++ '\x7d' :: '\x7d' :: v))) = none := by
    rw [Option.eq_none_iff_forall_not_mem]
    intro rest hrest
    -- the namespace would stand one place early too, and the slash behind it where a brace is
    have hearly := Text.eq_append_of_after? hrest
    rw [List.append_assoc] at hearly
    exact absurd (eq_of_cons_append hearly) (by decide)
  rw [hshape, reference, hafter]

theorem reference_source (e : Stretch) (v : Text) :
    reference space (e.source space ++ v) = some (e.body space, (e.source space).length) :=
  reference_of_path space e.nonempty e.closed v

theorem Stretch.source_ne_nil (e : Stretch) : e.source space ≠ [] := braces_ne_nil _

theorem Separator.still (s : Separator) (hv : reference space ('\x7b' :: v) = none) :
    Scan.Still (reference space) s.text v := by
  refine (braced_reference space).still (fun hin => ?_) hv
  exact Bool.eq_false_iff.1 s.apart (Text.contains_iff_infix.2 hin)

/-! ## Scanning what is written -/

def wovenPieces (space : Text) (last : Separator) : List Stretch → List (Scan.Piece Text)
  | [] => last.text.map .plain
  | e :: rest => e.front.text.map .plain ++ .mark (e.body space) (e.source space) :: wovenPieces space last rest

/-- The references that are met are those that were written, and all else is passed over. -/
theorem scan_weave (space : Text) (last : Separator) (stretches : List Stretch) :
    Scan.scan (reference space) (weave last stretches (stretches.map (Stretch.source space))) =
      wovenPieces space last stretches := by
  induction stretches with
  | nil =>
    have hend : reference space ['\x7b'] = none := rfl
    exact Scan.scan_of_still (last.still hend)
  | cons e rest ih =>
    -- no reference begins up to the one that was written, which is taken to its own end
    rw [List.map_cons, weave, Scan.scan_append_of_still (e.front.still (reference_brace e _)),
      Scan.scan_append_of_mark e.source_ne_nil (reference_source e _), ih, wovenPieces]

theorem markPieces_woven (space : Text) (last : Separator) (stretches : List Stretch) :
    Scan.markPieces (wovenPieces space last stretches) = stretches.map fun e => (e.body space, e.source space) := by
  induction stretches with
  | nil =>
    have hlast := Scan.markPieces_map_plain last.text ([] : List (Scan.Piece Text))
    rwa [List.append_nil] at hlast
  | cons e rest ih => rw [wovenPieces, Scan.markPieces_map_plain, Scan.markPieces_mark, ih, List.map_cons]

theorem fill_woven (space : Text) (last : Separator) (stretches : List Stretch) (texts : List Text) :
    Scan.fill [] (wovenPieces space last stretches) texts = weave last stretches texts := by
  induction stretches generalizing texts with
  | nil =>
    have hlast := Scan.fill_map_plain last.text ([] : List (Scan.Piece Text)) texts
    rw [List.append_nil] at hlast
    exact hlast.trans (List.append_nil last.text)
  | cons e rest ih =>
    rw [wovenPieces, Scan.fill_map_plain]
    cases texts with
    | nil => rw [Scan.fill, ih, weave]
    | cons t texts => rw [Scan.fill_mark, ih, weave]

namespace Draft

variable (page : Draft)

theorem markPieces_text : Scan.markPieces (Scan.scan (reference space) (page.text space)) = page.marks space := by
  rw [text, filledWith, scan_weave, markPieces_woven, marks]

theorem fill_text (texts : List Text) :
    Scan.fill [] (Scan.scan (reference space) (page.text space)) texts = page.filledWith texts := by
  rw [text, filledWith, scan_weave, fill_woven, filledWith]

theorem references_text : references site (page.text site.componentNamespace) =
    page.stretches.map (Stretch.body site.componentNamespace) := by
  rw [references, Scan.marks_eq, markPieces_text, marks, List.map_map]
  rfl

end Draft

/-- What was written is recovered. The references are found in order, each with what stands between its braces; with any
texts in their place, one after the other, the page has the same separators. So it is too where the texts come from
steps that are taken at the references from left to right. -/
theorem references_recovered (site : Site) (page : Draft) :
    references site (page.text site.componentNamespace) = page.stretches.map (Stretch.body site.componentNamespace) ∧
    (∀ texts, filled site (page.text site.componentNamespace) texts = page.filledWith texts) ∧
    ∀ (m : Type → Type) [Monad m] (replace : Text → Text → m Text),
      Scan.substituteM (reference site.componentNamespace) replace (page.text site.componentNamespace) = do
        let texts ← (page.marks site.componentNamespace).mapM fun mark => replace mark.1 mark.2
        return page.filledWith texts := by
  refine ⟨page.references_text, fun texts => page.fill_text texts, fun m _ replace => ?_⟩
  simp only [Scan.substituteM, page.markPieces_text, page.fill_text]

/-- A page with braces around its references and in the path of one of them. -/
def bracedDraft : Draft where
  stretches := [⟨⟨"a\x7b".toList, by decide⟩, "p q".toList, by decide, by decide⟩,
    ⟨⟨"\x7d\x7b".toList, by decide⟩, "\x7bx".toList, by decide, by decide⟩]
  last := ⟨"\x7d\x7d".toList, by decide⟩

/-- A site whose components have a namespace that is no word. -/
def markedSite : Site := { Site.usual (.ofLocation []) with componentNamespace := ".*[".toList }

/-- A text that is put in may itself be a reference. -/
theorem references_recovered_braced :
    bracedDraft.text ".*[".toList =
      "a\x7b\x7b\x7b.*[/p q\x7d\x7d\x7d\x7b\x7b\x7b.*[/\x7bx\x7d\x7d\x7d\x7d".toList ∧
    references markedSite (bracedDraft.text ".*[".toList) = [".*[/p q".toList, ".*[/\x7bx".toList] ∧
    filled markedSite (bracedDraft.text ".*[".toList) ["\x7b\x7b.*[/y\x7d\x7d".toList, []] =
      "a\x7b\x7b\x7b.*[/y\x7d\x7d\x7d\x7b\x7d\x7d".toList := by
  obtain ⟨hreferences, hfilled, -⟩ := references_recovered markedSite bracedDraft
  exact ⟨by decide, hreferences, hfilled _⟩

/-! ## The two walks -/

/-- An expansion replaces the references that were written, in order. -/
theorem Draft.expand_text (page : Draft) (tree : Variables) (depth : Nat) (stack : List Text) :
    expand site tree (depth + 1) stack (page.text site.componentNamespace) = do
      let texts ← (page.stretches.map (Stretch.body site.componentNamespace)).mapM
        (replacementOf site tree depth stack)
      return page.filledWith texts := by
  simp only [expand_succ, page.references_text, page.fill_text]

/-- A walk that collects components meets the tokens that were written, in order. -/
theorem Draft.follow_text (page : Draft) (depth : Nat) :
    follow site (depth + 1) (page.text site.componentNamespace) =
      (page.stretches.map fun e => Text.trim (e.body site.componentNamespace)).forM (meet site depth) := by
  rw [follow_succ, tokens, page.references_text, List.map_map]
  rfl

end Sitewright.Component
