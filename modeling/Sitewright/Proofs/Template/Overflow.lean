import Sitewright.Proofs.Template.Matching
import Sitewright.Proofs.Template.Printing
/-!
# Expansions that are too long

Blocks are written from the inside out, so the sizes of a block are looked at even where it stands in a block that is
repeated zero times. An opening marker without a close is a text, and what stands beside it in the forest is the same
whatever its count is.

* `Repeat.HasBlock`: a block of a forest, at any depth.
* `Repeat.Exceeds`: a block that is too large.
* `Repeat.size`: the length of a forest's text, summed up over its nodes.

Main statement: `Repeat.expand_fails_iff`.
-/
set_option autoImplicit false

namespace Sitewright.Repeat

variable {nodes children : List Node} {before after ts : List Token} {count source s out : Text}

/-! ## Sizes -/

/-- The length of a forest's text: a text counts with its length, a block with that of its children as often as its
count says. -/
def size : List Node → Nat
  | [] => 0
  | .text s :: rest => s.length + size rest
  | .block count _ children :: rest => repetitions count * size children + size rest

theorem length_evaluate (nodes : List Node) : (evaluate nodes).length = size nodes := by
  induction nodes using evaluate.induct with
  | case1 => rw [evaluate, size, List.length_nil]
  | case2 s rest ih => rw [evaluate, size, List.length_append, ih]
  | case3 count openTag children rest ihChildren ihRest =>
    rw [evaluate, size, List.length_append, length_several, ihChildren, ihRest]

/-- A block with this count and these children stands in a forest, at any depth. -/
inductive HasBlock (count : Text) (children : List Node) : List Node → Prop
  | here (openTag : Text) (rest : List Node) : HasBlock count children (.block count openTag children :: rest)
  | within (count' openTag : Text) {inner : List Node} (rest : List Node) (h : HasBlock count children inner) :
      HasBlock count children (.block count' openTag inner :: rest)
  | behind (node : Node) {rest : List Node} (h : HasBlock count children rest) : HasBlock count children (node :: rest)

/-- A block is too large: its count, the text of its children, or this text as often as the count says. -/
def Exceeds (count : Text) (children : List Node) : Prop :=
  sizeLimit < repetitions count ∨ sizeLimit < (evaluate children).length ∨
    sizeLimit < (several (repetitions count) (evaluate children)).length

theorem not_exceeds_iff : ¬ Exceeds count children ↔ repetitions count ≤ sizeLimit ∧
    (evaluate children).length ≤ sizeLimit ∧ repetitions count * (evaluate children).length ≤ sizeLimit := by
  rw [Exceeds, length_several]
  omega

/-- The sizes of a forest are within the limit if those of each of its blocks are. -/
theorem fits_iff : Fits nodes ↔ ∀ count children, HasBlock count children nodes → ¬ Exceeds count children := by
  constructor
  · intro hfits count children h
    induction h with
    | here openTag rest =>
      rw [Fits] at hfits
      exact not_exceeds_iff.2 hfits.1
    | within count' openTag rest h ih =>
      rw [Fits] at hfits
      exact ih hfits.2.1
    | behind node h ih =>
      cases node with
      | text s =>
        rw [Fits] at hfits
        exact ih hfits
      | block count' openTag inner =>
        rw [Fits] at hfits
        exact ih hfits.2.2
  · intro h
    induction nodes using evaluate.induct with
    | case1 => rw [Fits]; trivial
    | case2 s rest ih =>
      rw [Fits]
      exact ih fun count children hblock => h count children (.behind _ hblock)
    | case3 count openTag children rest ihChildren ihRest =>
      rw [Fits]
      exact ⟨not_exceeds_iff.1 (h count children (.here openTag rest)),
        ihChildren fun count' children' hblock => h count' children' (.within count openTag rest hblock),
        ihRest fun count' children' hblock => h count' children' (.behind _ hblock)⟩

/-! ## When a text is expanded -/

theorem expand_of_contains (hs : Text.contains openBraces s = true) : expand s = .ok out ↔
    Fits (parse s) ∧ (evaluate (parse s)).length ≤ sizeLimit ∧ out = evaluate (parse s) := by
  have hexpand : expand s = (measure 0 (parse s)).map fun _ => evaluate (parse s) := by
    rw [← write_eq_evaluate]
    exact if_pos hs
  rw [hexpand]
  constructor
  · intro h
    cases hmeasure : measure 0 (parse s) with
    | error e =>
      rw [hmeasure] at h
      cases h
    | ok n =>
      rw [hmeasure] at h
      cases h
      obtain ⟨hfits, hlength, -⟩ := measure_eq_ok_iff.1 hmeasure
      exact ⟨hfits, by rwa [Nat.zero_add] at hlength, rfl⟩
  · rintro ⟨hfits, hlength, rfl⟩
    rw [measure_eq_ok_iff.2 ⟨hfits, by rwa [Nat.zero_add], rfl⟩]
    rfl

theorem parse_of_not_contains (hs : Text.contains openBraces s = false) (hne : s ≠ []) : parse s = [.text s] := by
  have hstill := still_of_not_contains hs (.inl rfl)
  have htokens := tokens_append_of_still hne hstill (.inl rfl)
  rw [List.append_nil, tokens_nil] at htokens
  rw [parse, htokens, matchTokens, matchTokens, abandon, List.reverse_singleton]

theorem expand_eq_ok_iff (hs : s.length ≤ sizeLimit) : expand s = .ok out ↔
    Fits (parse s) ∧ (evaluate (parse s)).length ≤ sizeLimit ∧ out = evaluate (parse s) := by
  cases hbraces : Text.contains openBraces s with
  | true => exact expand_of_contains hbraces
  | false =>
    have hexpand : expand s = .ok s := if_neg (by rw [← openBraces, hbraces]; decide)
    have hparse : Fits (parse s) ∧ evaluate (parse s) = s := by
      by_cases hne : s = []
      · rw [hne, parse, tokens_nil, matchTokens, abandon, List.reverse_nil, Fits, evaluate]
        exact ⟨trivial, rfl⟩
      · rw [parse_of_not_contains hbraces hne, Fits, Fits, evaluate, evaluate, List.append_nil]
        exact ⟨trivial, rfl⟩
    rw [hexpand, hparse.2, Except.ok.injEq]
    exact ⟨fun h => ⟨hparse.1, hs, h.symm⟩, fun h => h.2.2.symm⟩

/-! ## Opening markers without a close -/

/-- Behind an opening marker that meets no close there are never more closes than openings. -/
theorem rising_of_unmet (h : ∀ j, ¬ Meets (before ++ .opening count source :: ts) before.length j) : Rising ts := by
  intro front hfront
  induction front using List.reverseRecOn with
  | nil => exact le_rfl
  | append_singleton front t ih =>
    have hle := ih ((List.prefix_append front [t]).trans hfront)
    rw [closes_append, opens_append]
    cases t with
    | text s => simpa using hle
    | opening count' source' =>
      simp only [closes_opening, opens_opening, closes_nil, opens_nil]
      omega
    | closing tag =>
      obtain ⟨behind, rfl⟩ := hfront
      have hne : closes front ≠ opens front := fun hlevel =>
        h _ (meets_iff.2 ⟨front, tag, behind, by simp, rfl, hlevel⟩)
      simp only [closes_closing, opens_closing, closes_nil, opens_nil]
      omega

theorem abandon_append (level before : List Node) (stack : List OpenBlock) :
    abandon (level ++ before) stack = abandon before stack ++ level.reverse := by
  induction stack generalizing before with
  | nil => rw [abandon, abandon, List.reverse_append]
  | cons b outer ih => rw [abandon, abandon, List.append_assoc, ih]

theorem abandon_open (level before : List Node) (inner outer : List OpenBlock) :
    ∃ x y, ∀ count source, abandon level (inner ++ ⟨count, source, before⟩ :: outer) = x ++ .text source :: y := by
  induction inner generalizing level with
  | nil =>
    refine ⟨abandon before outer, level.reverse, fun count source => ?_⟩
    have hlevel : level ++ Node.text source :: before = (level ++ [.text source]) ++ before := by simp
    rw [List.nil_append, abandon, hlevel, abandon_append]
    simp
  | cons b inner ih => exact ih (level ++ .text b.openTag :: b.before)

/-- An open block is given up where behind it there are never more closes than openings, those of the blocks within it
included. -/
theorem matchTokens_open (level before : List Node) (inner outer : List OpenBlock)
    (h : ∀ front, front <+: ts → closes front ≤ opens front + inner.length) :
    ∃ x y, ∀ count source,
      matchTokens level (inner ++ ⟨count, source, before⟩ :: outer) ts = x ++ .text source :: y := by
  induction ts generalizing level inner with
  | nil => exact abandon_open level before inner outer
  | cons t ts ih =>
    have htail : ∀ front, front <+: ts → t :: front <+: t :: ts := fun front hfront =>
      List.cons_prefix_cons.2 ⟨rfl, hfront⟩
    cases t with
    | text s =>
      refine ih _ inner fun front hfront => ?_
      have hle := h _ (htail front hfront)
      rwa [closes_text, opens_text] at hle
    | opening count' source' =>
      refine ih [] (⟨count', source', level⟩ :: inner) fun front hfront => ?_
      have hle := h _ (htail front hfront)
      rw [closes_opening, opens_opening] at hle
      rw [List.length_cons]
      omega
    | closing tag =>
      cases inner with
      | nil =>
        have hle := h [.closing tag] (htail [] List.nil_prefix)
        simp at hle
      | cons b inner =>
        refine ih _ inner fun front hfront => ?_
        have hle := h _ (htail front hfront)
        rw [closes_closing, opens_closing, List.length_cons] at hle
        omega

theorem matchTokens_append (level : List Node) (stack : List OpenBlock) (before : List Token) :
    ∃ level' stack', ∀ ts, matchTokens level stack (before ++ ts) = matchTokens level' stack' ts := by
  induction before generalizing level stack with
  | nil => exact ⟨level, stack, fun _ => rfl⟩
  | cons t before ih =>
    cases t with
    | text s => exact ih _ _
    | opening count source => exact ih _ _
    | closing source =>
      cases stack with
      | nil => exact ih _ _
      | cons b outer => exact ih _ _

theorem parse_unclosed (h : Rising after) (before : List Token) : ∃ x y, ∀ s count source,
    tokens s = before ++ .opening count source :: after → parse s = x ++ .text source :: y := by
  obtain ⟨level, stack, hbefore⟩ := matchTokens_append [] [] before
  obtain ⟨x, y, hxy⟩ := matchTokens_open [] level [] stack h
  refine ⟨x, y, fun s count source htokens => ?_⟩
  rw [parse, htokens, hbefore, matchTokens]
  exact hxy count source

/-! ## The result -/

/-- The expansion of a text, which is itself within the limit, fails if and only if some block of its forest is too
large, at any depth and whatever the counts of the blocks around it, or the whole text of the forest is. Otherwise the
forest's text is given, whose length is the sum over the forest. An opening marker that meets no close is a text of the
forest, and with any other count it would stand between the same nodes. -/
theorem expand_fails_iff (hs : s.length ≤ sizeLimit) :
    ((∃ e, expand s = .error e) ↔
      (∃ count children, HasBlock count children (parse s) ∧ Exceeds count children) ∨
        sizeLimit < (evaluate (parse s)).length) ∧
    (∀ out, expand s = .ok out → out = evaluate (parse s) ∧ out.length = size (parse s)) ∧
    ∀ before count source after, tokens s = before ++ .opening count source :: after →
      (∀ j, ¬ Meets (tokens s) before.length j) → ∃ x y, parse s = x ++ .text source :: y ∧
        ∀ s' count' source', tokens s' = before ++ .opening count' source' :: after →
          parse s' = x ++ .text source' :: y := by
  refine ⟨⟨fun ⟨e, he⟩ => ?_, fun h => ?_⟩, fun out hout => ?_, fun before count source after htokens hunmet => ?_⟩
  · by_contra hnone
    rw [not_or, not_exists, Nat.not_lt] at hnone
    have hfits : Fits (parse s) := fits_iff.2 fun count children hblock hexceeds =>
      hnone.1 count ⟨children, hblock, hexceeds⟩
    rw [(expand_eq_ok_iff hs).2 ⟨hfits, hnone.2, rfl⟩] at he
    cases he
  · cases hout : expand s with
    | error e => exact ⟨e, rfl⟩
    | ok out =>
      obtain ⟨hfits, hlength, -⟩ := (expand_eq_ok_iff hs).1 hout
      rcases h with ⟨count, children, hblock, hexceeds⟩ | hlong
      · exact absurd hexceeds (fits_iff.1 hfits count children hblock)
      · omega
  · obtain ⟨-, -, rfl⟩ := (expand_eq_ok_iff hs).1 hout
    exact ⟨rfl, length_evaluate _⟩
  · rw [htokens] at hunmet
    obtain ⟨x, y, hxy⟩ := parse_unclosed (rising_of_unmet hunmet) before
    exact ⟨x, y, hxy s count source htokens, hxy⟩

/-- A count beyond the limit in a block that is left out, and another one behind it in a marker without a close. -/
def hugeText : Text :=
  ("\x7b\x7brepeat 0\x7d\x7d\x7b\x7brepeat 9223372036854775808\x7d\x7d\x7b\x7b/repeat\x7d\x7d" ++
    "\x7b\x7b/repeat\x7d\x7da\x7b\x7brepeat 9223372036854775809\x7d\x7db").toList

/-- The tokens of it in front of the marker without a close. -/
def hugeFront : List Token :=
  [.opening ['0'] "\x7b\x7brepeat 0\x7d\x7d".toList,
    .opening "9223372036854775808".toList "\x7b\x7brepeat 9223372036854775808\x7d\x7d".toList,
    .closing "\x7b\x7b/repeat\x7d\x7d".toList, .closing "\x7b\x7b/repeat\x7d\x7d".toList, .text ['a']]

theorem expand_fails_huge : hugeText.length ≤ sizeLimit ∧ (∃ e, expand hugeText = .error e) ∧
    ∃ x y, ∀ s count source, tokens s = hugeFront ++ .opening count source :: [.text ['b']] →
      parse s = x ++ .text source :: y := by
  have hlength : hugeText.length ≤ sizeLimit := by decide
  have htokens : tokens hugeText = hugeFront ++ .opening "9223372036854775809".toList
      "\x7b\x7brepeat 9223372036854775809\x7d\x7d".toList :: [.text ['b']] := by
    cbv
  have hparse : parse hugeText = [.block "0".toList "\x7b\x7brepeat 0\x7d\x7d".toList
      [.block "9223372036854775808".toList "\x7b\x7brepeat 9223372036854775808\x7d\x7d".toList []], .text ['a'],
      .text "\x7b\x7brepeat 9223372036854775809\x7d\x7d".toList, .text ['b']] := by
    cbv
  have hcount : sizeLimit < repetitions "9223372036854775808".toList := by
    have hvalue : repetitions "9223372036854775808".toList = 9223372036854775808 := by cbv
    rw [hvalue]
    decide
  have hrising : Rising [.text ['b']] := by
    intro front hpre
    rcases List.prefix_cons_iff.1 hpre with rfl | ⟨t, rfl, ht⟩
    · decide
    · rw [List.prefix_nil.1 ht]
      decide
  obtain ⟨hfails, -, hunclosed⟩ := expand_fails_iff hlength
  refine ⟨hlength, hfails.2 (.inl ⟨"9223372036854775808".toList, [], ?_, .inl hcount⟩), ?_⟩
  · rw [hparse]
    exact .within _ _ _ (.here _ _)
  · obtain ⟨x, y, -, hxy⟩ := hunclosed hugeFront _ _ _ htokens fun j => htokens ▸ hrising.not_meets j
    exact ⟨x, y, hxy⟩

end Sitewright.Repeat
