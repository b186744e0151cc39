import Sitewright.Proofs.Template.Tokens
import Sitewright.Proofs.Text.Occurrence
/-!
# Printed forests

A forest is printed by writing each block between its own opening marker and any closing marker. Where no two texts
stand next to each other, and no text holds two opening braces in a row, the markers that are met in the printed form
are those that were written there: an opening brace at the end of a text and a closing one at its begin do not shift
them. So parsing gives the forest back, and expanding gives what it means.

* `Repeat.Proper`: a forest that its text determines.
* `Repeat.Prints`: a text is a printed form of a forest.
* `Repeat.evaluate`: what a forest means, block by block.
* `Repeat.Fits`: no count and no length in a forest is beyond the limit.

Main statements: `Repeat.matchTokens_of_prints`, `Repeat.measure_eq_ok_iff`, `Repeat.prints_recovered`.
-/
set_option autoImplicit false

namespace Sitewright.Repeat

open Template (braced_marker)

variable {nodes rest children : List Node} {s u v out : Text}

/-! ## Forests and their text -/

/-- Two opening braces, with which every marker begins. -/
def openBraces : Text := ['\x7b', '\x7b']

/-- A forest in which texts are neither empty nor next to each other and hold no two opening braces in a row, and each
block has a marker for its count. -/
def Proper : List Node → Prop
  | [] => True
  | .text s :: rest =>
    s ≠ [] ∧ Text.contains openBraces s = false ∧ (∀ t more, rest ≠ .text t :: more) ∧ Proper rest
  | .block count openTag children :: rest =>
    (Written (.opening count) openTag ∧ '\x7d' ∉ count) ∧ Proper children ∧ Proper rest

/-- A text is a printed form of a forest: each block is closed by a marker, in any spelling. -/
inductive Prints : List Node → Text → Prop
  | nil : Prints [] []
  | text (s : Text) {rest : List Node} {out : Text} (h : Prints rest out) : Prints (.text s :: rest) (s ++ out)
  | block (count openTag : Text) {close inner out : Text} {children rest : List Node}
      (hclose : Written .closing close) (hinner : Prints children inner) (h : Prints rest out) :
      Prints (.block count openTag children :: rest) (openTag ++ (inner ++ (close ++ out)))

/-- The text of a forest in which each block has its children's text as often as its count says. -/
def evaluate : List Node → Text
  | [] => []
  | .text s :: rest => s ++ evaluate rest
  | .block count _ children :: rest => several (repetitions count) (evaluate children) ++ evaluate rest

/-- No count and no length in the blocks of a forest is beyond the limit. -/
def Fits : List Node → Prop
  | [] => True
  | .text _ :: rest => Fits rest
  | .block count _ children :: rest =>
    (repetitions count ≤ sizeLimit ∧ (evaluate children).length ≤ sizeLimit ∧
      repetitions count * (evaluate children).length ≤ sizeLimit) ∧ Fits children ∧ Fits rest

/-! ## Tokens of a text that goes on -/

/-- A text ends here, or a marker begins. -/
def AtMarker (v : Text) : Prop :=
  v = [] ∨ ∃ m source rest, v = source ++ rest ∧ source ≠ [] ∧ marker v = some (m, source.length)

theorem atMarker_of_written {m : Marker} {source : Text} (h : Written m source)
    (hbrace : ∀ count, m = .opening count → '\x7d' ∉ count) (rest : Text) : AtMarker (source ++ rest) :=
  .inr ⟨m, source, rest, rfl, h.ne_nil, h.marker_eq hbrace rest⟩

theorem marker_three_braces (t : Text) : marker ('\x7b' :: '\x7b' :: '\x7b' :: t) = none := rfl

theorem still_of_not_contains (h : Text.contains openBraces s = false) (hv : AtMarker v) : Scan.Still marker s v := by
  refine braced_marker.still (fun hin => Bool.eq_false_iff.1 h (Text.contains_iff_infix.2 hin)) ?_
  rcases hv with rfl | ⟨m, source, rest, -, -, hv⟩
  · rfl
  · obtain ⟨t, rfl⟩ := braced_marker _ _ hv
    exact marker_three_braces t

theorem gather_map_plain (stretch u : Text) (found : List Token) (pieces : List (Scan.Piece Marker)) :
    gather stretch found (u.map .plain ++ pieces) = gather (u.reverse ++ stretch) found pieces := by
  induction u generalizing stretch with
  | nil => rfl
  | cons c u ih => simp [gather, ih]

theorem tokens_nil : tokens [] = [] := rfl

theorem tokens_append_of_marker {m : Marker} {source : Text} (hne : source ≠ [])
    (h : marker (source ++ v) = some (m, source.length)) : tokens (source ++ v) = m.token source :: tokens v := by
  rw [tokens, Scan.scan_append_of_mark hne h, gather_mark]
  rfl

theorem tokens_append_of_still (hne : s ≠ []) (h : Scan.Still marker s v) (hv : AtMarker v) :
    tokens (s ++ v) = .text s :: tokens v := by
  have hclose : (closeStretch s.reverse []).reverse = [.text s] := by simp [closeStretch, hne]
  rw [tokens, Scan.scan_append_of_still h, gather_map_plain, List.append_nil]
  rcases hv with rfl | ⟨m, source, rest, rfl, hsource, hv⟩
  · rw [Scan.scan_nil, gather, hclose, tokens_nil]
  · rw [tokens_append_of_marker hsource hv, Scan.scan_append_of_mark hsource hv, gather_mark, hclose]
    rfl

/-! ## Parsing what is printed -/

theorem Prints.atMarker (h : Prints nodes out) (hproper : Proper nodes) (hfirst : ∀ t more, nodes ≠ .text t :: more)
    (hv : AtMarker v) : AtMarker (out ++ v) := by
  cases h with
  | nil => exact hv
  | text s h => exact absurd rfl (hfirst _ _)
  | block count openTag hclose hinner h =>
    rw [Proper] at hproper
    obtain ⟨⟨hopen, hbrace⟩, -⟩ := hproper
    rw [List.append_assoc]
    refine atMarker_of_written hopen ?_ _
    rintro count' hcount
    cases hcount
    exact hbrace

/-- The tokens of a printed forest are matched to the forest, on whatever level they are met. -/
theorem matchTokens_of_prints (h : Prints nodes out) (hproper : Proper nodes) (hv : AtMarker v) (level : List Node)
    (stack : List OpenBlock) :
    matchTokens level stack (tokens (out ++ v)) = matchTokens (nodes.reverse ++ level) stack (tokens v) := by
  induction h generalizing level stack v with
  | nil => rfl
  | text s h ih =>
    rw [Proper] at hproper
    obtain ⟨hne, hbraces, hnext, hrest⟩ := hproper
    have hbehind := h.atMarker hrest hnext hv
    rw [List.append_assoc, tokens_append_of_still hne (still_of_not_contains hbraces hbehind) hbehind, matchTokens,
      ih hrest hv]
    simp
  | @block count openTag close inner out children rest hclose hinner h ihInner ih =>
    rw [Proper] at hproper
    obtain ⟨⟨hopen, hbrace⟩, hchildren, hrest⟩ := hproper
    have hopening : marker (openTag ++ (inner ++ (close ++ (out ++ v)))) = some (.opening count, openTag.length) := by
      refine hopen.marker_eq ?_ _
      rintro count' hcount
      cases hcount
      exact hbrace
    have hplain : ∀ count', Marker.closing = .opening count' → '\x7d' ∉ count' := by
      intro count' hcount
      cases hcount
    have hclosing := hclose.marker_eq hplain (out ++ v)
    have hend : AtMarker (close ++ (out ++ v)) := atMarker_of_written hclose hplain _
    simp only [List.append_assoc]
    rw [tokens_append_of_marker hopen.ne_nil hopening, Marker.token, matchTokens, ihInner hchildren hend,
      tokens_append_of_marker hclose.ne_nil hclosing, Marker.token, matchTokens, ih hrest hv]
    simp

theorem parse_of_prints (h : Prints nodes s) (hproper : Proper nodes) : parse s = nodes := by
  have hmatch := matchTokens_of_prints h hproper (.inl rfl) [] []
  rw [List.append_nil, List.append_nil] at hmatch
  rw [parse, hmatch, tokens_nil, matchTokens, abandon, List.reverse_reverse]

/-! ## Expanding -/

theorem write_eq_evaluate (nodes : List Node) : write nodes = evaluate nodes := by
  induction nodes using evaluate.induct with
  | case1 => rw [write_nil, evaluate]
  | case2 s rest ih => rw [write_text, evaluate, ih]
  | case3 count openTag children rest ihChildren ihRest => rw [write_block, evaluate, ihChildren, ihRest]

theorem length_several (n : Nat) (s : Text) : (several n s).length = n * s.length := by
  simp [several]

theorem repeatedLength_eq_ok_iff {count length n : Nat} : repeatedLength count length = .ok n ↔
    count ≤ sizeLimit ∧ count * length ≤ sizeLimit ∧ n = count * length := by
  unfold repeatedLength
  split
  · simp only [reduceCtorEq, false_iff]
    omega
  · split
    · simp only [reduceCtorEq, false_iff]
      omega
    · simp only [Except.ok.injEq]
      omega

/-- The length of a forest's text can be had if it is within the limit, and all counts and lengths in its blocks are. -/
theorem measure_eq_ok_iff {total n : Nat} : measure total nodes = .ok n ↔
    Fits nodes ∧ total + (evaluate nodes).length ≤ sizeLimit ∧ n = total + (evaluate nodes).length := by
  induction nodes using evaluate.induct generalizing total n with
  | case1 =>
    rw [measure, Fits, evaluate]
    split
    · simp; omega
    · simp; omega
  | case2 s rest ih =>
    rw [measure, ih, Fits, evaluate, List.length_append, Nat.add_assoc]
  | case3 count openTag children rest ihChildren ihRest =>
    rw [measure, Fits, evaluate, List.length_append, length_several]
    cases hinner : measure 0 children with
    | error e =>
      simp only [reduceCtorEq, false_iff]
      rintro ⟨⟨⟨-, hlength, -⟩, hchildren, -⟩, -⟩
      have hok := ihChildren.2 ⟨hchildren, by rwa [Nat.zero_add], rfl⟩
      rw [hinner] at hok
      cases hok
    | ok inner =>
      obtain ⟨hchildren, hlength, rfl⟩ := ihChildren.1 hinner
      rw [Nat.zero_add] at hlength ⊢
      cases hrepeat : repeatedLength (repetitions count) (evaluate children).length with
      | error e =>
        simp only [hrepeat, reduceCtorEq, false_iff]
        rintro ⟨⟨⟨hcount, -, hblock⟩, -⟩, -⟩
        have hok := repeatedLength_eq_ok_iff.2 ⟨hcount, hblock, rfl⟩
        rw [hrepeat] at hok
        cases hok
      | ok block =>
        obtain ⟨hcount, hblock, rfl⟩ := repeatedLength_eq_ok_iff.1 hrepeat
        simp only [hrepeat, ihRest, hcount, hblock, hchildren, hlength, true_and, Nat.add_assoc]

theorem expand_eq_evaluate (hfits : Fits (parse s)) (hlength : (evaluate (parse s)).length ≤ sizeLimit) :
    expand s = .ok (evaluate (parse s)) := by
  rw [← write_eq_evaluate] at hlength ⊢
  unfold expand
  split
  · have hmeasure := (@measure_eq_ok_iff (parse s) 0 _).2 ⟨hfits, by rwa [Nat.zero_add, ← write_eq_evaluate], rfl⟩
    simp only [hmeasure]
    rfl
  · rename_i hnone
    rw [write_parse, scan_of_not_contains (Bool.eq_false_iff.2 hnone), emit_map_plain, List.nil_append]

/-- A forest that its text determines is what any printed form of it is parsed to. Where no count and no length is
beyond the limit, the printed form is expanded to what the forest means, block by block. -/
theorem prints_recovered (hproper : Proper nodes) (hprints : Prints nodes s) :
    parse s = nodes ∧ (Fits nodes → (evaluate nodes).length ≤ sizeLimit → expand s = .ok (evaluate nodes)) := by
  obtain rfl := parse_of_prints hprints hproper
  exact ⟨rfl, expand_eq_evaluate⟩

/-- A forest with braces at the ends of its texts and in a count. -/
def bracedForest : List Node :=
  [.text "a\x7b".toList,
    .block "2".toList "\x7b\x7b repeat\t2\x7d\x7d".toList
      [.text "\x7d".toList, .block "\x7bx".toList "\x7b\x7brepeat \x7bx \x7d\x7d".toList [.text "y".toList]],
    .text "\x7db".toList]

/-- Its text, with two spellings of the closing marker. -/
def bracedText : Text :=
  ("a\x7b\x7b\x7b repeat\t2\x7d\x7d\x7d\x7b\x7brepeat \x7bx \x7d\x7dy\x7b\x7b/repeat\x7d\x7d" ++
    "\x7b\x7b /repeat\n\x7d\x7d\x7db").toList

theorem proper_bracedForest : Proper bracedForest := by
  have hspace : ∀ c ∈ [' '], Text.isBlank c = true := List.forall_mem_singleton.2 (by decide)
  have htab : ∀ c ∈ ['\t'], Text.isBlank c = true := List.forall_mem_singleton.2 (by decide)
  have htwo : ∀ c ∈ ['2'], Text.isBlank c = false := List.forall_mem_singleton.2 (by decide)
  have hbrace : ∀ c ∈ ['\x7b', 'x'], Text.isBlank c = false :=
    List.forall_mem_cons.2 ⟨by decide, List.forall_mem_singleton.2 (by decide)⟩
  have houter : Written (.opening "2".toList) "\x7b\x7b repeat\t2\x7d\x7d".toList :=
    @Written.opening [' '] ['\t'] ['2'] [] hspace (by decide) htab (by decide) htwo nofun
  have hinner : Written (.opening "\x7bx".toList) "\x7b\x7brepeat \x7bx \x7d\x7d".toList :=
    @Written.opening [] [' '] ['\x7b', 'x'] [' '] nofun (by decide) hspace (by decide) hbrace hspace
  simp only [bracedForest, Proper, houter, hinner, ne_eq, List.cons.injEq, reduceCtorEq, false_and, not_false_eq_true,
    implies_true]
  decide

theorem prints_bracedForest : Prints bracedForest bracedText := by
  have hplain : Written .closing "\x7b\x7b/repeat\x7d\x7d".toList := @Written.closing [] [] nofun nofun
  have hspaced : Written .closing "\x7b\x7b /repeat\n\x7d\x7d".toList :=
    @Written.closing [' '] ['\n'] (List.forall_mem_singleton.2 (by decide)) (List.forall_mem_singleton.2 (by decide))
  exact .text _ (.block _ _ hspaced (.text _ (.block _ _ hplain (.text _ .nil) .nil)) (.text _ .nil))

theorem prints_recovered_braced : (Proper bracedForest ∧ Prints bracedForest bracedText ∧ Fits bracedForest) ∧
    parse bracedText = bracedForest ∧ expand bracedText = .ok "a\x7b\x7d\x7d\x7db".toList := by
  have htwo : repetitions "2".toList = 2 := by cbv
  have hnone : repetitions "\x7bx".toList = 0 := by cbv
  have hvalue : evaluate bracedForest = "a\x7b\x7d\x7d\x7db".toList := by
    simp only [bracedForest, evaluate, htwo, hnone]
    decide
  have hfits : Fits bracedForest := by
    simp only [bracedForest, Fits, evaluate, htwo, hnone]
    decide
  obtain ⟨hparse, hexpand⟩ := prints_recovered proper_bracedForest prints_bracedForest
  refine ⟨⟨proper_bracedForest, prints_bracedForest, hfits⟩, hparse, ?_⟩
  rw [hexpand hfits (by rw [hvalue]; decide), hvalue]

end Sitewright.Repeat
