import Sitewright.Proofs.Template.Tokens
import Sitewright.Proofs.Text.Occurrence
import Sitewright.Proofs.Text.Passage
/-!
# What passes through the expansion of blocks

A part of a text that meets no marker passes through the expansion of repeat blocks, with the blocks that hold it.

* `Repeat.Keeps`: no block that is repeated zero times holds a part.

Main statement: `Repeat.infix_expand`.
-/
set_option autoImplicit false

namespace Sitewright

/-! ## Repeat blocks -/

namespace Repeat

variable {part s : Text} {nodes : List Node}

/-- The texts of some nodes, at any depth. -/
def texts : List Node → List Text
  | [] => []
  | .text s :: rest => s :: texts rest
  | .block _ _ children :: rest => texts children ++ texts rest

/-- No block that is repeated zero times holds a part. -/
def Keeps (part : Text) : List Node → Prop
  | [] => True
  | .text _ :: rest => Keeps part rest
  | .block count _ children :: rest =>
    (repetitions count = 0 → ∀ s ∈ texts children, ¬ part <:+: s) ∧ Keeps part children ∧ Keeps part rest

theorem texts_append (a b : List Node) : texts (a ++ b) = texts a ++ texts b := by
  induction a with
  | nil => rw [List.nil_append, texts, List.nil_append]
  | cons node rest ih =>
    cases node with
    | text s => rw [List.cons_append, texts, texts, ih, List.cons_append]
    | block count openTag children => rw [List.cons_append, texts, texts, ih, List.append_assoc]

theorem mem_texts_reverse : s ∈ texts nodes.reverse ↔ s ∈ texts nodes := by
  induction nodes with
  | nil => rfl
  | cons node rest ih =>
    have hcons : texts (node :: rest) = texts [node] ++ texts rest := texts_append [node] rest
    rw [List.reverse_cons, texts_append, List.mem_append, ih, hcons, List.mem_append, or_comm]

def pendingTexts (level : List Node) (stack : List OpenBlock) : List Text :=
  texts level ++ stack.flatMap fun b => texts b.before

theorem mem_texts_abandon {level : List Node} {stack : List OpenBlock} (h : s ∈ pendingTexts level stack) :
    s ∈ texts (abandon level stack) := by
  induction stack generalizing level with
  | nil => exact mem_texts_reverse.2 (by simpa [pendingTexts] using h)
  | cons b outer ih =>
    refine ih ?_
    rw [pendingTexts, List.flatMap_cons] at h
    rw [pendingTexts, texts_append, texts]
    simp only [List.mem_append, List.mem_cons] at h ⊢
    tauto

/-- Every text between markers becomes a text of the forest. -/
theorem mem_texts_matchTokens {level : List Node} {stack : List OpenBlock} {tokens : List Token}
    (h : s ∈ pendingTexts level stack ∨ .text s ∈ tokens) : s ∈ texts (matchTokens level stack tokens) := by
  induction tokens generalizing level stack with
  | nil => exact mem_texts_abandon (h.resolve_right List.not_mem_nil)
  | cons token rest ih =>
    rw [List.mem_cons] at h
    cases token with
    | text t =>
      refine ih ?_
      rw [pendingTexts, texts]
      rw [pendingTexts] at h
      simp only [List.mem_append, List.mem_cons, Token.text.injEq] at h ⊢
      tauto
    | opening count source =>
      refine ih ?_
      rw [pendingTexts, texts, List.flatMap_cons]
      rw [pendingTexts] at h
      simp only [List.mem_append, List.not_mem_nil, reduceCtorEq] at h ⊢
      tauto
    | closing source =>
      cases stack with
      | nil =>
        refine ih ?_
        rw [pendingTexts, texts]
        rw [pendingTexts] at h
        simp only [List.mem_append, List.mem_cons, reduceCtorEq] at h ⊢
        tauto
      | cons b outer =>
        refine ih ?_
        rw [pendingTexts, texts]
        rw [pendingTexts, List.flatMap_cons] at h
        simp only [List.mem_append, mem_texts_reverse, reduceCtorEq] at h ⊢
        tauto

/-- A part of a text of some nodes stands in what they are written to, unless a block with it is left out. -/
theorem infix_write (hkeeps : Keeps part nodes) (hs : s ∈ texts nodes) (hpart : part <:+: s) :
    part <:+: write nodes := by
  induction nodes using texts.induct with
  | case1 =>
    rw [texts] at hs
    cases hs
  | case2 t rest ih =>
    rw [texts] at hs
    rw [Keeps] at hkeeps
    rw [write_text]
    rcases List.mem_cons.1 hs with rfl | hs
    · exact hpart.trans (List.prefix_append _ _).isInfix
    · exact (ih hkeeps hs).trans (List.suffix_append _ _).isInfix
  | case3 count openTag children rest ihChildren ihRest =>
    rw [texts] at hs
    rw [Keeps] at hkeeps
    obtain ⟨hcount, hchildren, hrest⟩ := hkeeps
    rw [write_block]
    rcases List.mem_append.1 hs with hs | hs
    · obtain ⟨n, hn⟩ : ∃ n, repetitions count = n + 1 :=
        Nat.exists_eq_succ_of_ne_zero fun hzero => hcount hzero s hs hpart
      rw [hn, several_succ, List.append_assoc]
      exact (ihChildren hchildren hs).trans (List.prefix_append _ _).isInfix
    · exact (ihRest hrest hs).trans (List.suffix_append _ _).isInfix

theorem gather_text {stretch : Text} {found : List Token} {pieces : List (Scan.Piece Marker)} (hne : part ≠ [])
    (h : part <:+: stretch.reverse ∨ ∃ s, .text s ∈ found ∧ part <:+: s) :
    ∃ s, .text s ∈ gather stretch found pieces ∧ part <:+: s := by
  have hclose : ∀ {stretch : Text} {found : List Token},
      (part <:+: stretch.reverse ∨ ∃ s, .text s ∈ found ∧ part <:+: s) →
        ∃ s, .text s ∈ closeStretch stretch found ∧ part <:+: s := by
    rintro stretch found (hin | ⟨s, hs, hin⟩)
    · have hstretch : stretch ≠ [] := by
        rintro rfl
        exact hne (List.eq_nil_of_infix_nil hin)
      refine ⟨stretch.reverse, ?_, hin⟩
      rw [closeStretch, if_neg (by simpa using hstretch)]
      exact List.mem_cons_self
    · refine ⟨s, ?_, hin⟩
      unfold closeStretch
      split
      · exact hs
      · exact List.mem_cons_of_mem _ hs
  induction pieces generalizing stretch found with
  | nil =>
    obtain ⟨s, hs, hin⟩ := hclose h
    exact ⟨s, List.mem_reverse.2 hs, hin⟩
  | cons piece rest ih =>
    cases piece with
    | plain c =>
      refine ih (h.imp_left fun hin => ?_)
      rw [List.reverse_cons]
      exact hin.trans (List.prefix_append _ _).isInfix
    | mark meaning source =>
      obtain ⟨s, hs, hin⟩ := hclose h
      cases meaning <;> exact ih (.inr ⟨s, List.mem_cons_of_mem _ hs, hin⟩)

theorem gather_split {stretch : Text} {found : List Token} {p q : List (Scan.Piece Marker)} (hne : part ≠ []) :
    ∃ s, .text s ∈ gather stretch found (p ++ (part.map .plain ++ q)) ∧ part <:+: s := by
  induction p generalizing stretch found with
  | nil =>
    have hpass : gather stretch found (part.map .plain ++ q) = gather (part.reverse ++ stretch) found q := by
      clear hne
      induction part generalizing stretch with
      | nil => rfl
      | cons c part ih => rw [List.map_cons, List.cons_append, gather, ih, List.reverse_cons, List.append_assoc]; rfl
    rw [List.nil_append, hpass]
    refine gather_text hne (.inl ?_)
    rw [List.reverse_append, List.reverse_reverse]
    exact (List.suffix_append _ _).isInfix
  | cons piece p ih =>
    cases piece with
    | plain c => exact ih
    | mark meaning source => cases meaning <;> exact ih

/-- A part of a text that misses its markers stands in the expansion, unless a block with it is left out. -/
theorem infix_expand (hne : part ≠ []) (hquiet : Scan.Quiet marker part) (h : part <:+: s)
    (hmisses : ∀ m source, .mark m source ∈ Scan.scan marker s → Scan.Misses part source)
    (hkeeps : Keeps part (parse s)) {out : Text} (hout : expand s = .ok out) : part <:+: out := by
  obtain ⟨before, behind, rfl⟩ := h
  rw [expand_ok hout, ← write_parse]
  rw [List.append_assoc] at hmisses hkeeps ⊢
  obtain ⟨p, q, hpq⟩ := Scan.scan_split hquiet hmisses
  obtain ⟨t, ht, hin⟩ : ∃ t, .text t ∈ tokens (before ++ (part ++ behind)) ∧ part <:+: t := by
    rw [tokens, hpq]
    exact gather_split hne
  exact infix_write hkeeps (mem_texts_matchTokens (.inr ht)) hin

/-! ## Markers -/

/-- A marker is a front without an opening bracket, a stretch without blanks, and blanks before its end. -/
theorem of_marker {s : Text} {m : Marker} {n : Nat} (h : marker s = some (m, n)) :
    ∃ front body blanks rest, s = front ++ (body ++ (blanks ++ '\x7d' :: '\x7d' :: rest)) ∧
      n = front.length + body.length + blanks.length + 2 ∧ '<' ∉ front ∧ (∀ c ∈ body, Text.isBlank c = false) ∧
        ∀ c ∈ blanks, Text.isBlank c = true := by
  have hbracket : ∀ t : Text, (∀ c ∈ t, Text.isBlank c = true) → '<' ∉ t := by
    intro t ht hc
    exact absurd (ht _ hc) (by decide)
  obtain ⟨source, rest, rfl, rfl, hwritten⟩ := written_of_marker h
  cases hwritten with
  | @opening front gap count trail hfront hgap hblank hcount hsolid htrail =>
    refine ⟨'\x7b' :: '\x7b' :: (front ++ ("repeat".toList ++ gap)), count, trail, rest, ?_, ?_, ?_, hsolid, htrail⟩
    · simp [Template.braces]
    · simp [Template.braces]
      omega
    · simp [hbracket front hfront, hbracket gap hblank]
  | @closing front trail hfront htrail =>
    refine ⟨'\x7b' :: '\x7b' :: (front ++ "/repeat".toList), [], trail, rest, ?_, ?_, ?_,
      fun _ hc => absurd hc List.not_mem_nil, htrail⟩
    · simp [Template.braces]
    · simp [Template.braces]
      omega
    · simp [hbracket front hfront]

/-- Behind a blank in a stretch without blanks, blanks and an end stand only blanks and the end. -/
theorem blank_or_end {body blanks before behind : Text} {b c : Char} (hbody : ∀ x ∈ body, Text.isBlank x = false)
    (hblanks : ∀ x ∈ blanks, Text.isBlank x = true) (hb : Text.isBlank b = true)
    (h : body ++ (blanks ++ ['\x7d', '\x7d']) = before ++ b :: c :: behind) : Text.isBlank c = true ∨ c = '\x7d' := by
  have hend : c ∈ blanks ++ ['\x7d', '\x7d'] → Text.isBlank c = true ∨ c = '\x7d' := by
    intro hc
    rcases List.mem_append.1 hc with hc | hc
    · exact .inl (hblanks c hc)
    · exact .inr (by simpa using hc)
  rcases List.append_eq_append_iff.1 h with ⟨a, -, ha⟩ | ⟨a, rfl, ha⟩
  · exact hend (ha ▸ by simp)
  · cases a with
    | nil => exact hend (by rw [← List.nil_append (blanks ++ _), ← ha]; simp)
    | cons x a =>
      obtain ⟨rfl, -⟩ := List.cons.inj ha
      rw [hbody b (by simp)] at hb
      cases hb

/-- A part that begins with an opening bracket and holds a word behind its first one misses every marker. -/
theorem misses_marker {word behind : Text} {c : Char} (hc : Text.isBlank c = false)
    (hfree : '\x7d' ∉ '<' :: (word ++ ' ' :: c :: behind)) {s source : Text} {m : Marker}
    (h : .mark m source ∈ Scan.scan marker s) : Scan.Misses ('<' :: (word ++ ' ' :: c :: behind)) source := by
  obtain ⟨-, rest, n, -, hrest, rfl⟩ := Scan.exists_of_mark_mem_scan h
  obtain ⟨front, body, blanks, after, rfl, rfl, hfront, hbody, hblanks⟩ := of_marker hrest
  have hsplit : front ++ (body ++ (blanks ++ '\x7d' :: '\x7d' :: after)) =
      front ++ (body ++ (blanks ++ ['\x7d', '\x7d'])) ++ after := by simp
  have hlen : max (front.length + body.length + blanks.length + 2) 1 =
      (front ++ (body ++ (blanks ++ ['\x7d', '\x7d']))).length := by
    simp
    omega
  rw [hsplit, hlen, List.take_left]
  intro x tail htail hne
  constructor
  · -- the source ends with a brace, which the part does not hold
    intro hpre
    have hlast := congrArg List.getLast? htail
    rw [List.getLast?_append_of_ne_nil _ hne] at hlast
    have hmem : '\x7d' ∈ tail := List.mem_of_getLast? (hlast.symm.trans (by simp))
    exact hfree (hpre.subset hmem)
  · -- the part begins in the marker, whose body ends before the blank behind the word
    rintro ⟨z, rfl⟩
    obtain ⟨a, ha⟩ : ∃ a, body ++ (blanks ++ ['\x7d', '\x7d']) =
        a ++ '<' :: (word ++ ' ' :: c :: behind ++ z) := by
      rw [List.cons_append] at htail
      rcases List.append_eq_append_iff.1 htail with ⟨a, -, ha⟩ | ⟨a, rfl, ha⟩
      · exact ⟨a, ha⟩
      · cases a with
        | nil => exact ⟨[], ha.symm⟩
        | cons d a =>
          obtain ⟨rfl, -⟩ := List.cons.inj ha
          exact absurd (List.mem_append_right x List.mem_cons_self) hfront
    have hword : body ++ (blanks ++ ['\x7d', '\x7d']) = (a ++ '<' :: word) ++ ' ' :: c :: (behind ++ z) := by
      rw [ha]
      simp
    rcases blank_or_end hbody hblanks (by decide) hword with hblank | rfl
    · rw [hc] at hblank
      cases hblank
    · exact hfree (by simp)

end Repeat

/-! ## Placeholders and references -/

theorem take_braces (body rest : Text) {n : Nat} (hn : n = body.length + 4) :
    ('\x7b' :: '\x7b' :: (body ++ '\x7d' :: '\x7d' :: rest)).take (max n 1) = Template.braces body := by
  have hsplit : '\x7b' :: '\x7b' :: (body ++ '\x7d' :: '\x7d' :: rest) = Template.braces body ++ rest := by
    simp [Template.braces]
  have hlen : max n 1 = (Template.braces body).length := by
    rw [Template.length_braces]
    omega
  rw [hsplit, hlen, List.take_left]

/-- The source of a placeholder is its path in braces, which holds no bracket. -/
theorem Variable.not_mem_placeholder {s source path : Text} (h : .mark path source ∈ Scan.scan Variable.placeholder s) :
    '<' ∉ source := by
  obtain ⟨-, rest, n, -, hrest, rfl⟩ := Scan.exists_of_mark_mem_scan h
  unfold Variable.placeholder at hrest
  split at hrest
  · rename_i t
    simp only at hrest
    split at hrest
    · rename_i behind hdrop
      split at hrest
      · cases hrest
        have ht : t = t.takeWhile (fun c => c = '.' || Variable.isWord c) ++ '\x7d' :: '\x7d' :: behind := by
          rw [← hdrop, Text.takeWhile_append_drop]
        have hpath : '<' ∉ t.takeWhile fun c => c = '.' || Variable.isWord c := fun hc =>
          absurd (List.mem_takeWhile_imp hc) (by decide)
        generalize t.takeWhile (fun c => c = '.' || Variable.isWord c) = path at ht hpath ⊢
        rw [ht, take_braces path behind rfl]
        simp [Template.braces, hpath]
      · cases hrest
    · cases hrest
  · cases hrest

/-- The source of a reference is the reference in braces. -/
theorem Component.source_of_reference {space s source raw : Text}
    (h : .mark raw source ∈ Scan.scan (Component.reference space) s) : source = Template.braces raw := by
  obtain ⟨-, rest, n, -, hrest, rfl⟩ := Scan.exists_of_mark_mem_scan h
  unfold Component.reference at hrest
  split at hrest
  · rename_i t
    split at hrest
    · cases hrest
    · rename_i behind hafter
      simp only at hrest
      split at hrest
      · rename_i last hdrop
        split at hrest
        · cases hrest
        · cases hrest
          have ht : t = space ++ '/' :: behind.takeWhile (· ≠ '\x7d') ++ '\x7d' :: '\x7d' :: last := by
            rw [Text.eq_append_of_after? hafter, List.append_assoc, List.append_assoc, List.cons_append, ← hdrop,
              List.cons_append, Text.takeWhile_append_drop]
            rfl
          rw [ht]
          exact take_braces _ last rfl
      · cases hrest
  · cases hrest

/-! ## Texts without braces -/

theorem Repeat.expand_of_not_mem {s : Text} (h : '\x7b' ∉ s) : Repeat.expand s = .ok s := by
  refine if_neg fun hin => h ?_
  exact (Text.contains_iff_infix.1 hin).subset List.mem_cons_self

theorem Variable.render_of_not_mem {s : Text} {tree : Variables} (h : '\x7b' ∉ s) :
    Variable.render s tree = .ok s := by
  have hscan : Scan.scan Variable.placeholder s = s.map .plain := by
    refine Scan.scan_of_forall_none fun before c rest hs => Template.braced_placeholder.none_of_ne ?_
    rintro rfl
    exact h (hs ▸ List.mem_append_right _ List.mem_cons_self)
  have hmarks : Scan.markPieces (s.map .plain ++ []) = ([] : List (Text × Text)) := Scan.markPieces_map_plain s []
  have hfill := Scan.fill_map_plain s ([] : List (Scan.Piece Text)) []
  rw [List.append_nil] at hmarks hfill
  unfold Variable.render Scan.substituteM
  simp only [hscan, hmarks, List.mapM_nil]
  exact congrArg Except.ok (hfill.trans (List.append_nil s))

end Sitewright
