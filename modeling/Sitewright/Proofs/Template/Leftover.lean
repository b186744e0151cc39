import Sitewright.Proofs.Template.Overflow
/-!
# What an expansion leaves

Expanding leaves the markers that stand outside of all blocks: closes, and behind the last of them openings. Each is
recognised again wherever it comes to stand, as the recogniser looks no further than the end of the marker. Where the
stretches between the markers of a text hold no opening brace, no other marker can form. So a second expansion meets the
same markers, none of them with a partner, and changes nothing.

* `Repeat.Token.Stays`: a token that is met again wherever it comes to stand.
* `Repeat.Settled`: a text of closes and openings in that order, with no other opening brace.
* `Repeat.Flat`: a forest without blocks.

Main statement: `Repeat.expand_expand`.
-/
set_option autoImplicit false

namespace Sitewright.Repeat

open Template (braces braced_marker)

variable {opened outer : Bool} {m : Marker} {s u out source : Text} {level nodes : List Node}
  {stack : List OpenBlock} {ts : List Token}

/-! ## Markers wherever they stand -/

theorem Written.opening_ne_closing {count : Text} (h : Written (.opening count) source) : ¬ Written .closing source := by
  intro h'
  cases h with
  | @opening front gap count trail hfront hgap hblank hcount hsolid htrail =>
    generalize hsource : braces (front ++ ("repeat".toList ++ (gap ++ (count ++ trail)))) = source at h'
    cases h' with
    | @closing front' trail' hfront' htrail' =>
      -- the first character behind the braces that is not blank tells the words apart
      have hword := congrArg (fun t => (t.drop 2).dropWhile Text.isBlank) hsource
      have hopen := Text.dropWhile_gap hfront (c := 'r') (by decide)
        ("epeat".toList ++ (gap ++ (count ++ trail)) ++ ['\x7d', '\x7d'])
      have hclose := Text.dropWhile_gap hfront' (c := '/') (by decide)
        ("repeat".toList ++ trail' ++ ['\x7d', '\x7d'])
      simp [braces] at hword hopen hclose
      rw [hopen, hclose] at hword
      cases hword

theorem Leads.alone {rest : Text} (h : Leads m source (source ++ rest)) : Leads m source source where
  written := h.written
  front := List.prefix_refl source
  shortest m' source' hwritten hpre := h.shortest m' source' hwritten (hpre.trans (List.prefix_append source rest))

theorem Leads.exists_marker (h : Leads m source source) (rest : Text) :
    ∃ m', marker (source ++ rest) = some (m', source.length) ∧ Written m' source := by
  obtain ⟨m', n, hfound, hle⟩ := h.written.exists_marker rest
  obtain ⟨source', rest', hsplit, rfl, hleads⟩ := leads_of_marker hfound
  have hpre : source' <+: source := List.prefix_of_prefix_length_le ⟨rest', hsplit.symm⟩ (List.prefix_append _ _) hle
  obtain rfl := hpre.eq_of_length_le (h.shortest m' source' hleads.written hpre)
  exact ⟨m', hfound, hleads.written⟩

theorem Leads.marker_closing (h : Leads .closing source source) (rest : Text) :
    marker (source ++ rest) = some (.closing, source.length) := by
  obtain ⟨m', hfound, hwritten⟩ := h.exists_marker rest
  cases m' with
  | opening count => exact absurd h.written hwritten.opening_ne_closing
  | closing => exact hfound

theorem Leads.marker_opening {count : Text} (h : Leads (.opening count) source source) (rest : Text) :
    ∃ count', marker (source ++ rest) = some (.opening count', source.length) := by
  obtain ⟨m', hfound, hwritten⟩ := h.exists_marker rest
  cases m' with
  | opening count' => exact ⟨count', hfound⟩
  | closing => exact absurd hwritten h.written.opening_ne_closing

/-- A token that is met again wherever it comes to stand: a text without opening braces, or a marker in which no shorter
one ends. -/
def Token.Stays : Token → Prop
  | .text s => '\x7b' ∉ s
  | .opening count source => Leads (.opening count) source source
  | .closing source => Leads .closing source source

theorem Cut.stays (h : Cut s ts) (hplain : ∀ u, .text u ∈ ts → '\x7b' ∉ u) : ∀ t ∈ ts, t.Stays := by
  induction h with
  | nil => exact List.forall_mem_nil _
  | @stretch u rest ts hne hfree hnext h ih =>
    exact List.forall_mem_cons.2 ⟨hplain u List.mem_cons_self, ih fun v hv => hplain v (List.mem_cons_of_mem _ hv)⟩
  | @mark m source rest ts hleads h ih =>
    refine List.forall_mem_cons.2 ⟨?_, ih fun v hv => hplain v (List.mem_cons_of_mem _ hv)⟩
    cases m <;> exact hleads.alone

/-! ## Texts with nothing to expand -/

/-- A text of closes and, behind them, openings, with no other opening brace. Once it is `opened` no close stands in it. -/
inductive Settled : Bool → Text → Prop
  | nil {opened : Bool} : Settled opened []
  | plain {opened : Bool} {c : Char} {s : Text} (hc : c ≠ '\x7b') (h : Settled opened s) : Settled opened (c :: s)
  | closing {source s : Text} (hsource : Leads .closing source source) (h : Settled false s) :
      Settled false (source ++ s)
  | opening {opened : Bool} {count source s : Text} (hsource : Leads (.opening count) source source)
      (h : Settled true s) : Settled opened (source ++ s)

theorem Settled.append (hu : '\x7b' ∉ u) (h : Settled opened s) : Settled opened (u ++ s) := by
  induction u with
  | nil => exact h
  | cons c u ih =>
    rw [List.mem_cons, not_or] at hu
    exact .plain (Ne.symm hu.1) (ih hu.2)

/-- No node of the forest is a block. -/
def Flat (nodes : List Node) : Prop := ∀ n ∈ nodes, ∃ s, n = .text s

theorem Flat.text (h : Flat nodes) (s : Text) : Flat (.text s :: nodes) :=
  List.forall_mem_cons.2 ⟨⟨s, rfl⟩, h⟩

theorem Flat.append {nodes' : List Node} (h : Flat nodes) (h' : Flat nodes') : Flat (nodes ++ nodes') :=
  List.forall_mem_append.2 ⟨h, h'⟩

theorem Flat.abandon (h : Flat level) (hstack : ∀ b ∈ stack, Flat b.before) : Flat (abandon level stack) := by
  induction stack generalizing level with
  | nil =>
    intro n hn
    exact h n (List.mem_reverse.1 hn)
  | cons b outer ih =>
    obtain ⟨hb, houter⟩ := List.forall_mem_cons.1 hstack
    exact ih (h.append (hb.text b.openTag)) houter

theorem Flat.closeStretch (h : Flat level) (stretch : Text) : ∃ level', Flat level' ∧ ∀ stack ts,
    matchTokens level stack ((closeStretch stretch []).reverse ++ ts) = matchTokens level' stack ts := by
  unfold Repeat.closeStretch
  split
  · exact ⟨level, h, fun _ _ => rfl⟩
  · exact ⟨.text stretch.reverse :: level, h.text _, fun _ _ => rfl⟩

/-- In a settled text no marker has a partner, so that no block comes about. -/
theorem Settled.flat (h : Settled opened s) (hopened : opened = false → stack = []) (hlevel : Flat level)
    (hstack : ∀ b ∈ stack, Flat b.before) (stretch : Text) :
    Flat (matchTokens level stack (gather stretch [] (Scan.scan marker s))) := by
  induction h generalizing level stack stretch with
  | nil =>
    obtain ⟨level', hlevel', hmatch⟩ := hlevel.closeStretch stretch
    rw [Scan.scan_nil, gather, ← List.append_nil (Repeat.closeStretch stretch []).reverse, hmatch, matchTokens]
    exact hlevel'.abandon hstack
  | plain hc h ih =>
    rw [Scan.scan_cons_of_none (braced_marker.none_of_ne hc), gather]
    exact ih hopened hlevel hstack _
  | closing hsource h ih =>
    obtain ⟨level', hlevel', hmatch⟩ := hlevel.closeStretch stretch
    rw [Scan.scan_append_of_mark hsource.written.ne_nil (hsource.marker_closing _), gather_mark, hmatch, hopened rfl]
    exact ih (fun _ => rfl) (hlevel'.text _) (List.forall_mem_nil _) []
  | opening hsource h ih =>
    obtain ⟨level', hlevel', hmatch⟩ := hlevel.closeStretch stretch
    obtain ⟨count', hmarker⟩ := hsource.marker_opening _
    rw [Scan.scan_append_of_mark hsource.written.ne_nil hmarker, gather_mark, hmatch]
    exact ih Bool.noConfusion (List.forall_mem_nil _) (List.forall_mem_cons.2 ⟨hlevel', hstack⟩) []

theorem Flat.fits (h : Flat nodes) : Fits nodes := by
  induction nodes with
  | nil => rw [Fits]; trivial
  | cons node rest ih =>
    obtain ⟨⟨s, rfl⟩, hrest⟩ := List.forall_mem_cons.1 h
    rw [Fits]
    exact ih hrest

/-- A forest without blocks means the text that it was read from. -/
theorem Flat.evaluate (h : Flat nodes) (hstands : List.Forall₂ Stands (parts nodes) ts) :
    evaluate nodes = ts.flatMap Token.source := by
  induction nodes generalizing ts with
  | nil =>
    rw [parts] at hstands
    cases hstands
    rw [Repeat.evaluate, List.flatMap_nil]
  | cons node rest ih =>
    obtain ⟨⟨s, rfl⟩, hrest⟩ := List.forall_mem_cons.1 h
    rw [parts] at hstands
    cases hstands with
    | cons ht hstands =>
      cases ht
      rw [Repeat.evaluate, List.flatMap_cons, ih hrest hstands]

theorem expand_of_settled (h : Settled false s) (hlength : s.length ≤ sizeLimit) : expand s = .ok s := by
  have hflat : Flat (parse s) := h.flat (fun _ => rfl) (List.forall_mem_nil _) (List.forall_mem_nil _) []
  have hvalue : evaluate (parse s) = s := by
    rw [hflat.evaluate (reads_parse s).stands, source_tokens]
  have hexpand := expand_eq_evaluate hflat.fits (by rwa [hvalue])
  rwa [hvalue] at hexpand

/-! ## What is left -/

theorem not_mem_several {c : Char} (h : c ∉ s) (n : Nat) : c ∉ several n s := by
  simp [several, h]

/-- Within a block no marker is left. -/
theorem Reads.not_mem_evaluate (h : Reads outer nodes ts) (hinside : outer = false) (hstays : ∀ t ∈ ts, t.Stays) :
    '\x7b' ∉ evaluate nodes := by
  induction h with
  | nil =>
    rw [evaluate]
    exact List.not_mem_nil
  | text s h ih =>
    obtain ⟨hs, hrest⟩ := List.forall_mem_cons.1 hstays
    rw [evaluate, List.mem_append, not_or]
    exact ⟨hs, ih hinside hrest⟩
  | block count openTag source hinner h ihInner ih =>
    rw [List.forall_mem_cons, List.forall_mem_append, List.forall_mem_cons] at hstays
    obtain ⟨-, hchildren, -, hrest⟩ := hstays
    rw [evaluate, List.mem_append, not_or]
    exact ⟨not_mem_several (ihInner rfl hchildren) _, ih hinside hrest⟩
  | closing source h ih => cases hinside
  | opening count source hrising h ih => cases hinside

theorem Rising.of_text (h : Rising (.text s :: ts)) : Rising ts := by
  intro front hfront
  have hle := h _ (List.cons_prefix_cons.2 ⟨rfl, hfront⟩)
  rwa [closes_text, opens_text] at hle

theorem Rising.of_block {inner : List Token} {count : Text} (hlevel : closes inner = opens inner)
    (h : Rising (.opening count source :: (inner ++ .closing u :: ts))) : Rising ts := by
  intro front hfront
  have hle := h (.opening count source :: (inner ++ .closing u :: front))
    (List.cons_prefix_cons.2 ⟨rfl, (List.prefix_append_right_inj inner).2 (List.cons_prefix_cons.2 ⟨rfl, hfront⟩)⟩)
  simp only [closes_opening, opens_opening, closes_append, opens_append, closes_closing, opens_closing] at hle
  omega

theorem not_rising_closing : ¬ Rising (.closing source :: ts) := by
  intro h
  have hle := h [.closing source] (List.cons_prefix_cons.2 ⟨rfl, List.nil_prefix⟩)
  simp at hle

/-- What a row of tokens means is settled: the closes that are left stand in front of the openings that are left. -/
theorem Reads.settled (h : Reads outer nodes ts) (hstays : ∀ t ∈ ts, t.Stays) (hopened : opened = true → Rising ts) :
    Settled opened (evaluate nodes) := by
  induction h generalizing opened with
  | nil =>
    rw [evaluate]
    exact .nil
  | text s h ih =>
    obtain ⟨hs, hrest⟩ := List.forall_mem_cons.1 hstays
    rw [evaluate]
    exact .append hs (ih hrest fun ho => (hopened ho).of_text)
  | block count openTag source hinner h ihInner ih =>
    rw [List.forall_mem_cons, List.forall_mem_append, List.forall_mem_cons] at hstays
    obtain ⟨-, hchildren, -, hrest⟩ := hstays
    rw [evaluate]
    exact .append (not_mem_several (hinner.not_mem_evaluate rfl hchildren) _)
      (ih hrest fun ho => (hopened ho).of_block (hinner.balanced rfl).2)
  | closing source h ih =>
    obtain ⟨hleads, hrest⟩ := List.forall_mem_cons.1 hstays
    cases opened with
    | true => exact absurd (hopened rfl) not_rising_closing
    | false =>
      rw [evaluate]
      exact .closing hleads (ih hrest Bool.noConfusion)
  | opening count source hrising h ih =>
    obtain ⟨hleads, hrest⟩ := List.forall_mem_cons.1 hstays
    rw [evaluate]
    exact .opening hleads (ih hrest fun _ => hrising)

/-- Where every opening brace of a text belongs to a marker, expanding what the text is expanded to changes nothing. -/
theorem expand_expand (hplain : ∀ u, .text u ∈ tokens s → '\x7b' ∉ u) (hout : expand s = .ok out) :
    expand out = .ok out := by
  cases hbraces : Text.contains openBraces s with
  | true =>
    obtain ⟨-, hlength, rfl⟩ := (expand_of_contains hbraces).1 hout
    exact expand_of_settled ((reads_parse s).settled ((cut_tokens s).stays hplain) Bool.noConfusion) hlength
  | false =>
    -- a text without two braces in a row is what it is expanded to
    have hsame : expand s = .ok s := if_neg (by rw [← openBraces, hbraces]; decide)
    rw [hsame, Except.ok.injEq] at hout
    rw [← hout, hsame]

/-- Two closes around a block that is left out, a marker whose count holds braces, and a block behind it. -/
def looseText : Text :=
  ("a\x7b\x7b/repeat\x7d\x7d\x7b\x7brepeat 0\x7d\x7db\x7b\x7b/repeat\x7d\x7d\x7d\x7b\x7b/repeat\x7d\x7d" ++
    "\x7b\x7brepeat \x7b\x7b/repeat\x7d\x7d\x7b\x7brepeat 2\x7d\x7dc\x7d\x7b\x7b/repeat\x7d\x7d").toList

def looseRest : Text :=
  "a\x7b\x7b/repeat\x7d\x7d\x7d\x7b\x7b/repeat\x7d\x7d\x7b\x7brepeat \x7b\x7b/repeat\x7d\x7dc\x7dc\x7d".toList

theorem expand_expand_loose : ((∀ u, .text u ∈ tokens looseText → '\x7b' ∉ u) ∧ expand looseText = .ok looseRest) ∧
    expand looseRest = .ok looseRest := by
  have htokens : tokens looseText = [.text ['a'], .closing "\x7b\x7b/repeat\x7d\x7d".toList,
      .opening ['0'] "\x7b\x7brepeat 0\x7d\x7d".toList, .text ['b'], .closing "\x7b\x7b/repeat\x7d\x7d".toList,
      .text ['\x7d'], .closing "\x7b\x7b/repeat\x7d\x7d".toList,
      .opening "\x7b\x7b/repeat".toList "\x7b\x7brepeat \x7b\x7b/repeat\x7d\x7d".toList,
      .opening ['2'] "\x7b\x7brepeat 2\x7d\x7d".toList, .text ['c', '\x7d'],
      .closing "\x7b\x7b/repeat\x7d\x7d".toList] := by
    cbv
  have hplain : ∀ u, .text u ∈ tokens looseText → '\x7b' ∉ u := by
    rw [htokens]
    simp
  have hout : expand looseText = .ok looseRest := by cbv
  exact ⟨⟨hplain, hout⟩, expand_expand hplain hout⟩

end Sitewright.Repeat
