import Sitewright.Proofs.Assembly
import Sitewright.Proofs.Component.HeadTags
import Sitewright.Proofs.File.Frame
import Sitewright.Proofs.Text.Encoding
/-!
# What an assembly looks at

An assembly reads the layout and the components that are reached from the document. Two disks that hold the
same there give the same page, whatever else they hold.

What has been noted before makes no difference either.

Main statements: `assemble_agree` and `assemble_ok_of_log`.
-/
set_option autoImplicit false

namespace Sitewright

open Reading (outcome textIn)

variable {site : Site} {d d' : Disk}

/-! ## Files -/

theorem Reading.textIn_congr {p : Path} (h : d'.readBytes p = d.readBytes p) : textIn d' p = textIn d p := by
  rw [textIn, textIn, h]

theorem Reading.textIn_of_readBytes {p : Path} {s : Text} (h : d.readBytes p = .ok (Utf8.encode s)) :
    textIn d p = .ok (Newline.normalize s) := by
  rw [textIn, h]
  simp only [Utf8.decode_encode]

namespace Component

/-- Two disks agree on a component if they have the same of its files, and the markup that stands on the first
one can be read on the other one too. -/
theorem agree_of_files {token : Text}
    (hfile : ∀ file ∈ [site.componentMarkup, site.componentStylesheet, site.componentScript],
      d'.isFile ((site.componentRoot token).join file) = d.isFile ((site.componentRoot token).join file))
    (hread : ∀ bytes, d.readBytes ((site.componentRoot token).join site.componentMarkup) = .ok bytes →
      d'.readBytes ((site.componentRoot token).join site.componentMarkup) = .ok bytes) :
    Agree site d d' token := by
  have hfound : ∀ file ∈ [site.componentMarkup, site.componentStylesheet, site.componentScript],
      fileIn? d' ((site.componentRoot token).join file) = fileIn? d ((site.componentRoot token).join file) := by
    intro file hmem
    rw [fileIn?, fileIn?, hfile file hmem]
  constructor
  · unfold found
    simp only
    rw [hfound _ (by simp), hfound _ (by simp), hfound _ (by simp)]
  · intro c hc
    obtain ⟨_, hmarkup, hisFile⟩ := of_found hc
    obtain ⟨bytes, hbytes⟩ := Disk.readBytes_of_isFile hisFile
    refine Reading.textIn_congr ?_
    rw [hbytes]
    rw [hmarkup] at hbytes ⊢
    exact hread bytes hbytes

/-! ## Injections -/

theorem Reaches.of_agree {page t : Text} (hagree : ∀ t, Reaches site d page t → Agree site d d' t)
    (h : Reaches site d page t) : Reaches site d' page t := by
  obtain ⟨t₀, ht₀, hpath⟩ := h
  refine ⟨t₀, ht₀, ?_⟩
  induction hpath with
  | refl => exact .refl
  | @tail u v hpath hstep ih =>
    obtain ⟨m, hm, hv⟩ := hstep
    exact ih.tail ⟨m, by rw [(hagree u ⟨t₀, ht₀, hpath⟩).markupIn_eq, hm], hv⟩

theorem exists_reached_lt_bounds {page : Text} (hagree : ∀ t, Reaches site d page t → Agree site d d' t) :
    ∃ reached : Finset Text, (∀ t, t ∈ reached ↔ Reaches site d page t) ∧
      reached.card < boundOn d page ∧ reached.card < boundOn d' page := by
  obtain ⟨reached, hreached, hbound⟩ := exists_reached_lt_nestingBound site d page
  obtain ⟨reached', hreached', hbound'⟩ := exists_reached_lt_nestingBound site d' page
  have hsub : reached ⊆ reached' := fun t ht => (hreached' t).2 (((hreached t).1 ht).of_agree hagree)
  exact ⟨reached, hreached, hbound, (Finset.card_le_card hsub).trans_lt hbound'⟩

theorem inject_agree {tree : Variables} {page : Text} (hagree : ∀ t, Reaches site d page t → Agree site d d' t)
    (l : Log) : outcome (inject site tree page) d' l = outcome (inject site tree page) d l := by
  obtain ⟨reached, hreached, hbound, hbound'⟩ := exists_reached_lt_bounds hagree
  rw [outcome_inject, outcome_inject, outcome_injectWithin_agree tree l hreached hagree hbound hbound']

end Component

/-! ## Assemblies -/

namespace Assembly

open Component (Reaches Agree)

/-- The text of the layout decides what it makes of a fragment, and which notices that adds. -/
theorem exists_composed {page fragment : Text} {strict : Bool}
    (hlayout : textIn d' site.layoutFile = textIn d site.layoutFile) (l l' : Log) :
    ∃ r notes, outcome (composed site page strict fragment) d l = (r, l ++ notes) ∧
      outcome (composed site page strict fragment) d' l' = (r, l' ++ notes) := by
  unfold composed Layout.compose
  rw [Reading.outcome_bind, Reading.outcome_bind, outcome_expandRepeats, outcome_expandRepeats]
  cases Repeat.expand fragment with
  | error e => exact ⟨_, [], by rw [List.append_nil]; rfl, by rw [List.append_nil]; rfl⟩
  | ok html =>
    simp only [Except.mapError]
    rw [Reading.outcome_bind, Reading.outcome_bind, Reading.outcome_attempt, Reading.outcome_attempt,
      Reading.outcome_textOf, Reading.outcome_textOf, hlayout]
    simp only
    cases textIn d site.layoutFile with
    | ok shell => exact ⟨_, [], by rw [List.append_nil]; rfl, by rw [List.append_nil]; rfl⟩
    | error e =>
      cases hfiles : e.isOfFiles <;> simp only [hfiles]
      · exact ⟨.error e, [], by rw [List.append_nil]; rfl, by rw [List.append_nil]; rfl⟩
      · cases strict
        · exact ⟨_, [_], rfl, rfl⟩
        · exact ⟨_, [], by rw [List.append_nil]; rfl, by rw [List.append_nil]; rfl⟩

theorem composed_agree {page fragment : Text} {strict : Bool}
    (hlayout : textIn d' site.layoutFile = textIn d site.layoutFile) (l : Log) :
    outcome (composed site page strict fragment) d' l = outcome (composed site page strict fragment) d l := by
  obtain ⟨r, notes, hd, hd'⟩ := exists_composed hlayout l l
  rw [hd, hd']

theorem completed_agree {tree : Variables} {document : Text}
    (hagree : ∀ t, Reaches site d document t → Agree site d d' t) (l : Log) :
    outcome (completed site tree document) d' l = outcome (completed site tree document) d l := by
  unfold completed
  rw [Reading.outcome_bind, Reading.outcome_bind, Component.inject_agree hagree]
  rcases outcome (Component.inject site tree document) d l with ⟨_ | html, l'⟩
  · rfl
  · simp only
    rw [Reading.outcome_bind, Reading.outcome_bind, outcome_expandRepeats, outcome_expandRepeats]
    cases Repeat.expand html with
    | error e => rfl
    | ok html =>
      simp only [Except.mapError]
      rw [outcome_renderVariables, outcome_renderVariables]

/-- A page is assembled alike on disks with the same layout that agree on the components reached. -/
theorem assemble_agree {tree : Variables} {page fragment : Text} {strict : Bool}
    (hlayout : textIn d' site.layoutFile = textIn d site.layoutFile) (l : Log)
    (hagree : ∀ document, (outcome (composed site page strict fragment) d l).1 = .ok document →
      ∀ t, Reaches site d document t → Agree site d d' t) :
    outcome (assemble site tree page strict fragment) d' l =
      outcome (assemble site tree page strict fragment) d l := by
  rw [outcome_assemble, outcome_assemble, composed_agree hlayout]
  rcases hdocument : outcome (composed site page strict fragment) d l with ⟨_ | document, l'⟩
  · rfl
  · exact completed_agree (hagree document (by rw [hdocument])) l'

/-! ## Notices -/

theorem composed_ok_of_log {page fragment document : Text} {strict : Bool} {l : Log}
    (h : (outcome (composed site page strict fragment) d l).1 = .ok document) (l' : Log) :
    (outcome (composed site page strict fragment) d l').1 = .ok document := by
  have hsame : textIn d site.layoutFile = textIn d site.layoutFile := rfl
  obtain ⟨r, notes, hl, hl'⟩ := exists_composed hsame l l'
  rw [hl] at h
  rw [hl', h]

theorem completed_ok_of_log {tree : Variables} {document html : Text} {l : Log}
    (h : (outcome (completed site tree document) d l).1 = .ok html) (l' : Log) :
    (outcome (completed site tree document) d l').1 = .ok html := by
  obtain ⟨injected, l₁, hinject, hrest⟩ := Reading.exists_of_bind_ok h
  have hinject' := Component.inject_ok_of_log (congrArg Prod.fst hinject) l'
  obtain ⟨expanded, l₂, hexpand, hrender⟩ := Reading.exists_of_bind_ok hrest
  rw [outcome_expandRepeats] at hexpand
  rw [outcome_renderVariables] at hrender
  refine Reading.bind_ok hinject' fun l => ?_
  refine Reading.bind_ok (a := expanded) ?_ fun l => ?_
  · rw [outcome_expandRepeats]
    exact congrArg Prod.fst hexpand
  · rw [outcome_renderVariables]
    exact hrender

/-- An assembly that succeeds gives the same page whatever has been noted before. -/
theorem assemble_ok_of_log {tree : Variables} {page fragment html : Text} {strict : Bool} {l : Log}
    (h : (outcome (assemble site tree page strict fragment) d l).1 = .ok html) (l' : Log) :
    (outcome (assemble site tree page strict fragment) d l').1 = .ok html := by
  rw [outcome_assemble] at h ⊢
  rcases hdocument : outcome (composed site page strict fragment) d l with ⟨e | document, l₁⟩
  · rw [hdocument] at h
    cases h
  · rw [hdocument] at h
    have hsame := composed_ok_of_log (congrArg Prod.fst hdocument) l'
    rcases hdocument' : outcome (composed site page strict fragment) d l' with ⟨r, l₂⟩
    rw [hdocument'] at hsame
    cases hsame
    exact completed_ok_of_log h l₂

end Assembly
end Sitewright
