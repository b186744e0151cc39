import Sitewright.Proofs.Template.Marks
import Sitewright.Proofs.Template.Unroll
/-!
# The tokens of a text

A marker of a block is written in braces, with blanks where it may have them. The recogniser takes the shortest marker
at the front of a text. The tokens of a text are the markers that it meets from left to right, and the stretches
between them, in which no marker begins.

* `Repeat.Written`: what a marker looks like.
* `Repeat.Leads`: the shortest marker at the front of a text.
* `Repeat.Cut`: a text is cut into markers and the stretches between them.

Main statements: `Repeat.leads_of_marker`, `Repeat.marker_eq_none_iff`, `Repeat.cut_tokens`.
-/
set_option autoImplicit false

namespace Sitewright

theorem Text.takeWhile_append_drop (p : Char → Bool) (s : Text) : s.takeWhile p ++ s.drop (s.takeWhile p).length = s :=
  List.prefix_iff_eq_append.1 (List.takeWhile_prefix p)

namespace Repeat

open Template (braces takeWhile_blank endOf?_of_blank)

/-! ## Markers -/

/-- What a marker looks like: a word in braces, with blanks around it, and a count behind the word that opens. -/
inductive Written : Marker → Text → Prop
  | opening {front gap count trail : Text} (hfront : ∀ c ∈ front, Text.isBlank c = true) (hgap : gap ≠ [])
      (hblank : ∀ c ∈ gap, Text.isBlank c = true) (hcount : count ≠ []) (hsolid : ∀ c ∈ count, Text.isBlank c = false)
      (htrail : ∀ c ∈ trail, Text.isBlank c = true) :
      Written (.opening count) (braces (front ++ ("repeat".toList ++ (gap ++ (count ++ trail)))))
  | closing {front trail : Text} (hfront : ∀ c ∈ front, Text.isBlank c = true)
      (htrail : ∀ c ∈ trail, Text.isBlank c = true) : Written .closing (braces (front ++ ("/repeat".toList ++ trail)))

theorem Written.ne_nil {m : Marker} {source : Text} (h : Written m source) : source ≠ [] := by
  cases h <;> exact List.cons_ne_nil _ _

theorem of_endOf? {s : Text} {n : Nat} (h : endOf? s = some n) :
    ∃ blanks rest, s = blanks ++ '\x7d' :: '\x7d' :: rest ∧ n = blanks.length + 2 ∧
      ∀ c ∈ blanks, Text.isBlank c = true := by
  unfold endOf? at h
  simp only at h
  split at h
  · rename_i rest hdrop
    refine ⟨s.takeWhile Text.isBlank, rest, ?_, (Option.some.inj h).symm, fun c hc => List.mem_takeWhile_imp hc⟩
    rw [← hdrop, Text.takeWhile_append_drop]
  · cases h

theorem of_countFrom {s count : Text} {found : Text × Nat} (h : countFrom count s = some found) :
    ∃ body blanks rest, s = body ++ (blanks ++ '\x7d' :: '\x7d' :: rest) ∧ body ≠ [] ∧
      found = (count.reverse ++ body, count.length + body.length + blanks.length + 2) ∧
        (∀ c ∈ body, Text.isBlank c = false) ∧ ∀ c ∈ blanks, Text.isBlank c = true := by
  induction s generalizing count with
  | nil => cases h
  | cons c s ih =>
    rw [countFrom] at h
    split at h
    · cases h
    · rename_i hblank
      have hc : Text.isBlank c = false := Bool.eq_false_iff.2 hblank
      split at h
      · rename_i n hend
        cases h
        obtain ⟨blanks, rest, rfl, rfl, hblanks⟩ := of_endOf? hend
        refine ⟨[c], blanks, rest, rfl, by simp, ?_, fun x hx => List.mem_singleton.1 hx ▸ hc, hblanks⟩
        simp only [List.reverse_cons, List.length_singleton, Nat.add_assoc]
      · obtain ⟨body, blanks, rest, rfl, -, rfl, hbody, hblanks⟩ := ih h
        refine ⟨c :: body, blanks, rest, rfl, by simp, ?_, List.forall_mem_cons.2 ⟨hc, hbody⟩, hblanks⟩
        simp only [List.reverse_cons, List.append_assoc, List.singleton_append, List.length_cons, Prod.mk.injEq,
          true_and]
        omega

/-- Where a count and an end of a marker stand, a count is found, and none that ends behind it. -/
theorem exists_countFrom {body blanks : Text} (hne : body ≠ []) (hbody : ∀ c ∈ body, Text.isBlank c = false)
    (hblanks : ∀ c ∈ blanks, Text.isBlank c = true) (count rest : Text) :
    ∃ found, countFrom count (body ++ (blanks ++ '\x7d' :: '\x7d' :: rest)) = some found ∧
      found.2 ≤ count.length + body.length + blanks.length + 2 := by
  induction body generalizing count with
  | nil => exact absurd rfl hne
  | cons c body ih =>
    obtain ⟨hc, hbody⟩ := List.forall_mem_cons.1 hbody
    rw [List.cons_append, countFrom, hc]
    simp only [Bool.false_eq_true, if_false]
    cases hend : endOf? (body ++ (blanks ++ '\x7d' :: '\x7d' :: rest)) with
    | some n =>
      refine ⟨_, rfl, ?_⟩
      have hn : n ≤ blanks.length + 2 := by
        cases body with
        | nil =>
          rw [List.nil_append, endOf?_of_blank hblanks] at hend
          exact (Option.some.inj hend).symm.le
        | cons d body =>
          -- nothing is blank in front of the count that goes on, so the end stands at once
          obtain ⟨ends, after, hs, rfl, hends⟩ := of_endOf? hend
          cases ends with
          | nil => simp
          | cons e ends =>
            obtain ⟨rfl, -⟩ := List.cons.inj hs
            have hd := hbody d List.mem_cons_self
            rw [hends d List.mem_cons_self] at hd
            cases hd
      simp only [List.length_cons]
      omega
    | none =>
      have hmore : body ≠ [] := by
        rintro rfl
        rw [List.nil_append, endOf?_of_blank hblanks] at hend
        cases hend
      obtain ⟨found, hfound, hle⟩ := ih hmore hbody (c :: count)
      refine ⟨found, hfound, hle.trans ?_⟩
      simp only [List.length_cons]
      omega

/-- What is recognised is written as a marker. -/
theorem written_of_marker {s : Text} {m : Marker} {n : Nat} (h : marker s = some (m, n)) :
    ∃ source rest, s = source ++ rest ∧ n = source.length ∧ Written m source := by
  have hblank : ∀ t : Text, ∀ c ∈ t.takeWhile Text.isBlank, Text.isBlank c = true := fun t c hc =>
    List.mem_takeWhile_imp hc
  unfold marker at h
  split at h
  · rename_i t
    simp only at h
    -- an opening marker has a gap behind its word, a closing one a slash in front of it
    split at h
    · rename_i rest hafter
      split at h
      · cases h
      · rename_i hgap
        obtain ⟨found, hfound, hm⟩ := Option.map_eq_some_iff.1 h
        obtain ⟨body, blanks, behind, hrest, hne, rfl, hbody, hblanks⟩ := of_countFrom hfound
        cases hm
        refine ⟨_, behind, ?_, ?_, .opening (hblank t) (fun hnil => hgap (by rw [hnil]; rfl)) (hblank rest) hne hbody
          hblanks⟩
        · have ht : t = t.takeWhile Text.isBlank ++ ("repeat".toList ++ (rest.takeWhile Text.isBlank ++
              (body ++ (blanks ++ '\x7d' :: '\x7d' :: behind)))) := by
            rw [← hrest, Text.takeWhile_append_drop, ← Text.eq_append_of_after? hafter, Text.takeWhile_append_drop]
          simpa [braces] using ht
        · simp [braces]
          omega
    · split at h
      · rename_i rest hafter
        obtain ⟨k, hk, hm⟩ := Option.map_eq_some_iff.1 h
        obtain ⟨blanks, behind, rfl, rfl, hblanks⟩ := of_endOf? hk
        cases hm
        refine ⟨_, behind, ?_, ?_, .closing (hblank t) hblanks⟩
        · have ht : t = t.takeWhile Text.isBlank ++ ("/repeat".toList ++ (blanks ++ '\x7d' :: '\x7d' :: behind)) := by
            rw [← Text.eq_append_of_after? hafter, Text.takeWhile_append_drop]
          simpa [braces] using ht
        · simp [braces]
          omega
      · cases h
  · cases h

/-- Behind a word that opens, what is recognised depends on the count that is found. -/
theorem marker_opening {front gap count trail : Text} (hfront : ∀ c ∈ front, Text.isBlank c = true) (hgap : gap ≠ [])
    (hblank : ∀ c ∈ gap, Text.isBlank c = true) (hcount : count ≠ []) (hsolid : ∀ c ∈ count, Text.isBlank c = false)
    (rest : Text) : marker (braces (front ++ ("repeat".toList ++ (gap ++ (count ++ trail)))) ++ rest) =
      (countFrom [] (count ++ (trail ++ '\x7d' :: '\x7d' :: rest))).map fun found =>
        (.opening found.1, 2 + front.length + 6 + gap.length + found.2) := by
  have hsource : braces (front ++ ("repeat".toList ++ (gap ++ (count ++ trail)))) ++ rest = '\x7b' :: '\x7b' ::
      (front ++ ("repeat".toList ++ (gap ++ (count ++ (trail ++ '\x7d' :: '\x7d' :: rest))))) := by
    simp [braces]
  have hword : (front ++ ("repeat".toList ++ (gap ++ (count ++ (trail ++ '\x7d' :: '\x7d' :: rest))))).takeWhile
      Text.isBlank = front := takeWhile_blank hfront (by decide)
  obtain ⟨c, more, rfl⟩ := List.exists_cons_of_ne_nil hcount
  have hbreak : (gap ++ (c :: more ++ (trail ++ '\x7d' :: '\x7d' :: rest))).takeWhile Text.isBlank = gap :=
    takeWhile_blank hblank (hsolid c List.mem_cons_self)
  rw [hsource, marker]
  simp only [hword, List.drop_left, Text.after?_append, hbreak]
  exact if_neg fun hzero => hgap (List.length_eq_zero_iff.1 hzero)

theorem marker_closing {front trail : Text} (hfront : ∀ c ∈ front, Text.isBlank c = true)
    (htrail : ∀ c ∈ trail, Text.isBlank c = true) (rest : Text) :
    marker (braces (front ++ ("/repeat".toList ++ trail)) ++ rest) =
      some (.closing, (braces (front ++ ("/repeat".toList ++ trail))).length) := by
  have hsource : braces (front ++ ("/repeat".toList ++ trail)) ++ rest = '\x7b' :: '\x7b' ::
      (front ++ ("/repeat".toList ++ (trail ++ '\x7d' :: '\x7d' :: rest))) := by
    simp [braces]
  have hword : (front ++ ("/repeat".toList ++ (trail ++ '\x7d' :: '\x7d' :: rest))).takeWhile Text.isBlank = front :=
    takeWhile_blank hfront (by decide)
  have hopen : Text.after? "repeat".toList ("/repeat".toList ++ (trail ++ '\x7d' :: '\x7d' :: rest)) = none := rfl
  rw [hsource, marker]
  simp only [hword, List.drop_left, hopen, Text.after?_append, endOf?_of_blank htrail, Option.map_some,
    Template.length_braces]
  simp
  omega

theorem Written.exists_marker {m : Marker} {source : Text} (h : Written m source) (rest : Text) :
    ∃ m' n, marker (source ++ rest) = some (m', n) ∧ n ≤ source.length := by
  cases h with
  | @opening front gap count trail hfront hgap hblank hcount hsolid htrail =>
    obtain ⟨found, hfound, hle⟩ := exists_countFrom hcount hsolid htrail [] rest
    refine ⟨.opening found.1, 2 + front.length + 6 + gap.length + found.2, ?_, ?_⟩
    · rw [marker_opening hfront hgap hblank hcount hsolid, hfound, Option.map_some]
    · simp only [List.length_nil, Nat.zero_add] at hle
      simp [braces] at hle ⊢
      omega
  | closing hfront htrail => exact ⟨.closing, _, marker_closing hfront htrail rest, le_rfl⟩

theorem Written.marker_eq {m : Marker} {source : Text} (h : Written m source)
    (hbrace : ∀ count, m = .opening count → '\x7d' ∉ count) (rest : Text) :
    marker (source ++ rest) = some (m, source.length) := by
  cases h with
  | @opening front gap count trail hfront hgap hblank hcount hsolid htrail =>
    have hplain : ∀ c ∈ count, Text.isBlank c = false ∧ c ≠ '\x7d' := by
      refine fun c hc => ⟨hsolid c hc, ?_⟩
      rintro rfl
      exact hbrace count rfl hc
    rw [marker_opening hfront hgap hblank hcount hsolid, Template.countFrom_append hcount hplain htrail, Option.map_some]
    simp [braces]
    omega
  | closing hfront htrail => exact marker_closing hfront htrail rest

/-- A marker is the shortest one at the front of a text. -/
structure Leads (m : Marker) (source s : Text) : Prop where
  written : Written m source
  front : source <+: s
  shortest : ∀ m' source', Written m' source' → source' <+: s → source.length ≤ source'.length

/-- The recogniser takes the shortest marker at the front of a text. -/
theorem leads_of_marker {s : Text} {m : Marker} {n : Nat} (h : marker s = some (m, n)) :
    ∃ source rest, s = source ++ rest ∧ n = source.length ∧ Leads m source s := by
  obtain ⟨source, rest, rfl, rfl, hwritten⟩ := written_of_marker h
  refine ⟨source, rest, rfl, rfl, hwritten, List.prefix_append _ _, ?_⟩
  rintro m' source' hwritten' ⟨rest', hs⟩
  obtain ⟨m'', n, hfound, hle⟩ := hwritten'.exists_marker rest'
  rw [hs, h] at hfound
  cases hfound
  exact hle

/-- The recogniser finds no marker only where none is written. -/
theorem marker_eq_none_iff {s : Text} : marker s = none ↔ ∀ m source, Written m source → ¬ source <+: s := by
  constructor
  · rintro h m source hwritten ⟨rest, rfl⟩
    obtain ⟨m', n, hfound, -⟩ := hwritten.exists_marker rest
    rw [h] at hfound
    cases hfound
  · intro h
    cases hfound : marker s with
    | none => rfl
    | some found =>
      obtain ⟨source, rest, rfl, -, hwritten⟩ := written_of_marker hfound
      exact absurd (List.prefix_append _ _) (h _ _ hwritten)

/-! ## Tokens -/

/-- The token of a marker. -/
def Marker.token : Marker → Text → Token
  | .opening count, source => .opening count source
  | .closing, source => .closing source

/-- No marker begins in a stretch, where some text follows it. -/
def Plain (u s : Text) : Prop :=
  ∀ before behind, u = before ++ behind → behind ≠ [] → ∀ m source, Written m source → ¬ source <+: behind ++ s

theorem Plain.nil (s : Text) : Plain [] s :=
  fun _ _ hnil hne => absurd (List.append_eq_nil_iff.1 hnil.symm).2 hne

theorem Plain.concat {u s : Text} {c : Char} (h : Plain u (c :: s)) (hc : marker (c :: s) = none) :
    Plain (u ++ [c]) s := by
  intro before behind hu hne m source hwritten
  obtain ⟨front, d, rfl⟩ := (List.eq_nil_or_concat behind).resolve_left hne
  rw [List.concat_eq_append, ← List.append_assoc] at hu
  obtain ⟨rfl, hd⟩ := List.append_inj' hu rfl
  obtain ⟨rfl, -⟩ := List.cons.inj hd
  rw [List.concat_eq_append, List.append_assoc, List.singleton_append]
  by_cases hfront : front = []
  · rw [hfront]
    exact marker_eq_none_iff.1 hc m source hwritten
  · exact h before front rfl hfront m source hwritten

/-- A text is cut into tokens: from left to right the shortest marker wherever one begins, and the stretches between
markers as a whole, in which none begins. -/
inductive Cut : Text → List Token → Prop
  | nil : Cut [] []
  | stretch {u rest : Text} {ts : List Token} (hne : u ≠ []) (hplain : Plain u rest)
      (hnext : ∀ v ts', ts ≠ .text v :: ts') (h : Cut rest ts) : Cut (u ++ rest) (.text u :: ts)
  | mark {m : Marker} {source rest : Text} {ts : List Token} (hleads : Leads m source (source ++ rest))
      (h : Cut rest ts) : Cut (source ++ rest) (m.token source :: ts)

/-- No marker is written in a stretch. -/
theorem Cut.stretch_plain {s u : Text} {ts : List Token} (h : Cut s ts) (hu : .text u ∈ ts) :
    u ≠ [] ∧ ∀ m source, Written m source → ¬ source <:+: u := by
  induction h with
  | nil => cases hu
  | @stretch v rest ts hne hplain hnext h ih =>
    rcases List.mem_cons.1 hu with hfirst | hu
    · cases hfirst
      refine ⟨hne, ?_⟩
      rintro m source hwritten ⟨before, behind, rfl⟩
      refine hplain before (source ++ behind) (by simp) (by simp [hwritten.ne_nil]) m source hwritten ?_
      rw [List.append_assoc]
      exact List.prefix_append _ _
    · exact ih hu
  | @mark m source rest ts hleads h ih =>
    refine ih ((List.mem_cons.1 hu).resolve_left ?_)
    cases m <;> exact Token.noConfusion

theorem Marker.token_ne_text (m : Marker) (source v : Text) (ts ts' : List Token) :
    m.token source :: ts ≠ .text v :: ts' := by
  cases m <;> simp [token]

theorem gather_mark (stretch : Text) (m : Marker) (source : Text) (pieces : List (Scan.Piece Marker)) :
    gather stretch [] (.mark m source :: pieces) =
      (closeStretch stretch []).reverse ++ m.token source :: gather [] [] pieces := by
  cases m <;> simp [gather, gather_eq [] (_ :: _), Marker.token]

/-- A stretch that is held, in which no marker begins, goes on with what is gathered of the rest. -/
theorem cut_gather {stretch s : Text} (hplain : Plain stretch.reverse s) :
    Cut (stretch.reverse ++ s) (gather stretch [] (Scan.scan marker s)) := by
  -- on the length of the text: a mark takes several characters at once
  induction hn : s.length using Nat.strongRecOn generalizing stretch s with
  | _ n ih =>
    -- the open stretch ends at a mark or with the text
    have hclose : ∀ {ts : List Token}, (∀ v ts', ts ≠ .text v :: ts') → Cut s ts →
        Cut (stretch.reverse ++ s) ((closeStretch stretch []).reverse ++ ts) := by
      intro ts hnext h
      unfold closeStretch
      split
      · rename_i hempty
        rw [List.isEmpty_iff.1 hempty]
        exact h
      · rename_i hempty
        exact .stretch (by simpa using hempty) hplain hnext h
    cases s with
    | nil =>
      have hend : gather stretch [] (Scan.scan marker []) = (closeStretch stretch []).reverse ++ [] := by
        rw [Scan.scan_nil, gather, List.append_nil]
      rw [hend]
      exact hclose (fun _ _ => (List.cons_ne_nil _ _).symm) .nil
    | cons c s =>
      cases hc : marker (c :: s) with
      | none =>
        have hmore : Plain (c :: stretch).reverse s := by
          rw [List.reverse_cons]
          exact hplain.concat hc
        have hrest := ih s.length (by rw [← hn]; simp) hmore rfl
        rw [List.reverse_cons, List.append_assoc, List.singleton_append] at hrest
        rw [Scan.scan_cons_of_none hc, gather]
        exact hrest
      | some found =>
        obtain ⟨source, rest, hs, hlen, hleads⟩ := leads_of_marker hc
        have hne := hleads.written.ne_nil
        have hshort : rest.length < n := by
          rw [← hn, hs, List.length_append]
          exact Nat.lt_add_of_pos_left (List.length_pos_of_ne_nil hne)
        have hrest := @ih rest.length hshort [] rest (Plain.nil rest) rfl
        rw [hs] at hc hleads hclose ⊢
        rw [Scan.scan_append_of_mark hne (hc.trans (by rw [← hlen])), gather_mark]
        exact hclose (found.1.token_ne_text source · _ ·) (.mark hleads hrest)

theorem cut_tokens (s : Text) : Cut s (tokens s) := @cut_gather [] s (Plain.nil s)

end Repeat
end Sitewright
