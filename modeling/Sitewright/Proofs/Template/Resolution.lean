import Sitewright.Proofs.Template.Lookup
import Sitewright.Proofs.Template.Occurrences
/-!
# Which paths have a text

A path has the text of the value that it leads to, and the empty text where it leads nowhere. It has none where one of
its segments looks like an index to an array and cannot be read as one.

* `Variable.Missing`: segments lead to a value in which the next one names nothing.
* `Variable.Stuck`: segments lead to an array, to which the next one looks like an index that cannot be read.

Main statement: `Variable.resolve_settles`.
-/
set_option autoImplicit false

namespace Sitewright.Variable

open Json (Value)

variable {segment path s : Text} {segments rest : List Text} {u v w : Value} {tree : Variables}

/-! ## One segment -/

/-- A segment looks like an index and cannot be read as one: not all of its characters are decimal digits, or it has too
many of them. -/
def Unreadable (segment : Text) : Prop :=
  Text.looksNumeric segment = true ∧ ((∃ c ∈ segment, Text.digit? c = none) ∨ Integer.digitLimit < segment.length)

theorem step_fails_iff : (∃ e, step segment v = .error e) ↔ (∃ items, v = .array items) ∧ Unreadable segment := by
  constructor
  · rintro ⟨e, h⟩
    cases v with
    | array items =>
      rw [step_array] at h
      split at h
      · rename_i hnumeric
        split at h
        · cases h
        · rename_i problem hread
          exact ⟨⟨items, rfl⟩, hnumeric, (Integer.read_fails_iff hnumeric).1 ⟨problem, hread⟩⟩
      · cases h
    | _ => cases h
  · rintro ⟨⟨items, rfl⟩, hnumeric, hbad⟩
    obtain ⟨problem, hread⟩ := (Integer.read_fails_iff hnumeric).2 hbad
    rw [step_array, if_pos hnumeric, hread]
    exact ⟨_, rfl⟩

theorem Names.unique (h : Names segment v u) (h' : Names segment v w) : u = w := by
  have hstep := (step_eq_some_iff h.dotless).2 h
  rw [(step_eq_some_iff h.dotless).2 h'] at hstep
  cases hstep
  rfl

/-! ## Ways that end early -/

/-- The segments lead to a value where the next one has some flaw. -/
def Ends (flaw : Text → Value → Prop) (segments : List Text) (v : Value) : Prop :=
  ∃ before segment after u, segments = before ++ segment :: after ∧ Leads before v u ∧ flaw segment u

/-- The segments lead to a value in which the next one names nothing. -/
def Missing : List Text → Value → Prop := Ends fun segment u => ∀ w, ¬ Names segment u w

/-- The segments lead to an array, to which the next one looks like an index that cannot be read. -/
def Stuck : List Text → Value → Prop := Ends fun segment u => (∃ items, u = .array items) ∧ Unreadable segment

theorem ends_cons {flaw : Text → Value → Prop} : Ends flaw (segment :: rest) v ↔
    flaw segment v ∨ ∃ u, Names segment v u ∧ Ends flaw rest u := by
  constructor
  · rintro ⟨before, last, after, u, hsplit, hleads, hflaw⟩
    cases hleads with
    | here =>
      cases hsplit
      exact .inl hflaw
    | step hstep hrest =>
      cases hsplit
      exact .inr ⟨_, hstep, _, last, after, u, rfl, hrest, hflaw⟩
  · rintro (hflaw | ⟨u, hstep, before, last, after, w, rfl, hleads, hflaw⟩)
    · exact ⟨[], segment, rest, v, rfl, .here, hflaw⟩
    · exact ⟨segment :: before, last, after, w, rfl, .step hstep hleads, hflaw⟩

theorem not_ends_nil {flaw : Text → Value → Prop} : ¬ Ends flaw [] v := by
  rintro ⟨before, segment, after, u, hsplit, -⟩
  exact absurd hsplit.symm (List.append_ne_nil_of_right_ne_nil _ (List.cons_ne_nil _ _))

/-- Segments miss a value exactly where they lead to none. -/
theorem missing_iff : Missing segments v ↔ ∀ w, ¬ Leads segments v w := by
  induction segments generalizing v with
  | nil => exact iff_of_false not_ends_nil fun h => h v .here
  | cons segment rest ih =>
    rw [Missing, ends_cons]
    constructor
    · rintro (hnone | ⟨u, hstep, hmissing⟩) w (_ | ⟨hstep', hrest⟩)
      · exact hnone _ hstep'
      · rw [hstep'.unique hstep] at hrest
        exact ih.1 hmissing w hrest
    · intro hnone
      by_cases hnames : ∃ u, Names segment v u
      · obtain ⟨u, hstep⟩ := hnames
        exact .inr ⟨u, hstep, ih.2 fun w hrest => hnone w (.step hstep hrest)⟩
      · exact .inl fun w hstep => hnames ⟨w, hstep⟩

/-! ## Walks -/

theorem walk_fails_iff (hdot : ∀ segment ∈ segments, '.' ∉ segment) :
    (∃ e, walk segments v = .error e) ↔ Stuck segments v := by
  induction segments generalizing v with
  | nil =>
    refine iff_of_false ?_ not_ends_nil
    rintro ⟨e, h⟩
    cases h
  | cons segment rest ih =>
    obtain ⟨hsegment, hrest⟩ := List.forall_mem_cons.1 hdot
    rw [Stuck, ends_cons, ← step_fails_iff, walk]
    cases hstep : step segment v with
    | error e => exact iff_of_true ⟨e, rfl⟩ (.inl ⟨e, rfl⟩)
    | ok found =>
      cases found with
      | none =>
        refine iff_of_false ?_ ?_
        · rintro ⟨e, h⟩
          cases h
        rintro (⟨e, h⟩ | ⟨u, hnames, -⟩)
        · cases h
        · rw [(step_eq_some_iff hsegment).2 hnames] at hstep
          cases hstep
      | some next =>
        have hnames := (step_eq_some_iff hsegment).1 hstep
        refine (ih hrest).trans ⟨fun h => .inr ⟨next, hnames, h⟩, ?_⟩
        rintro (⟨e, h⟩ | ⟨u, hnames', h⟩)
        · cases h
        · rwa [hnames.unique hnames']

/-! ## Texts -/

theorem resolve_fails_iff : (∃ e, resolve path tree = .error e) ↔ Stuck (Text.splitOn '.' path) (.object tree) := by
  rw [← walk_fails_iff fun _ => Text.not_mem_of_mem_splitOn, resolve, lookup]
  cases walk (Text.splitOn '.' path) (.object tree) with
  | ok found =>
    constructor
    · rintro ⟨e, h⟩
      cases h
    · rintro ⟨e, h⟩
      cases h
  | error e => exact iff_of_true ⟨e, rfl⟩ ⟨e, rfl⟩

theorem resolve_of_leads (h : Leads (Text.splitOn '.' path) (.object tree) v) :
    resolve path tree = .ok (valueText v) := by
  rw [resolve, lookup_eq_some_iff.2 h]
  rfl

theorem resolve_of_missing (h : Missing (Text.splitOn '.' path) (.object tree))
    (hfree : ¬ Stuck (Text.splitOn '.' path) (.object tree)) : resolve path tree = .ok [] := by
  rw [resolve]
  cases hfound : lookup path tree with
  | error e => exact absurd ((walk_fails_iff fun _ => Text.not_mem_of_mem_splitOn).1 ⟨e, hfound⟩) hfree
  | ok found =>
    cases found with
    | none => rfl
    | some v => exact absurd (lookup_eq_some_iff.1 hfound) (missing_iff.1 h v)

theorem ok_iff_not_error {ε α : Type} {x : Except ε α} : (∃ a, x = .ok a) ↔ ¬ ∃ e, x = .error e := by
  cases x with
  | ok a => exact iff_of_true ⟨a, rfl⟩ nofun
  | error e => exact iff_of_false nofun (not_not_intro ⟨e, rfl⟩)

/-- A path has a text unless it gets stuck: that of the value it leads to, or the empty one if it leads to none. A
text is rendered unless the path of one of its placeholders gets stuck. -/
theorem resolve_settles (tree : Variables) :
    (∀ path, ((∃ t, resolve path tree = .ok t) ↔ ¬ Stuck (Text.splitOn '.' path) (.object tree)) ∧
      (∀ v, Leads (Text.splitOn '.' path) (.object tree) v → resolve path tree = .ok (valueText v)) ∧
      (Missing (Text.splitOn '.' path) (.object tree) → ¬ Stuck (Text.splitOn '.' path) (.object tree) →
        resolve path tree = .ok [])) ∧
    ∀ text, (∃ t, render text tree = .ok t) ↔
      ∀ i q, Occurs text i q → ¬ Stuck (Text.splitOn '.' q) (.object tree) := by
  have hsettles : ∀ path, (∃ t, resolve path tree = .ok t) ↔ ¬ Stuck (Text.splitOn '.' path) (.object tree) :=
    fun path => ok_iff_not_error.trans (not_congr resolve_fails_iff)
  refine ⟨fun path => ⟨hsettles path, fun v => resolve_of_leads, resolve_of_missing⟩, fun text => ?_⟩
  simp only [render_eq_ok_iff, ← hsettles]
  exact ⟨fun ⟨t, h, _⟩ => h, fun h => ⟨_, h, rfl⟩⟩

def navEntries : List Value := [.object [("label".toList, .string "Home".toList)]]

def navTree : Variables := [("NAV".toList, .array navEntries)]

theorem names_nav : Names "NAV".toList (.object navTree) (.array navEntries) :=
  @Names.member "NAV".toList _ [] [] (by decide) List.not_mem_nil

theorem resolve_settles_nav :
    (Leads ["NAV".toList, ['0'], "label".toList] (.object navTree) (.string "Home".toList) ∧
      resolve "NAV.0.label".toList navTree = .ok "Home".toList) ∧
    (Missing ["NAV".toList, ['1']] (.object navTree) ∧ ¬ Stuck ["NAV".toList, ['1']] (.object navTree) ∧
      resolve "NAV.1".toList navTree = .ok []) ∧
    (Stuck ["NAV".toList, ['²']] (.object navTree) ∧ ¬ ∃ t, resolve "NAV.²".toList navTree = .ok t) ∧
    ∀ i q, Occurs (Template.braces "NAV.0.label".toList) i q → ¬ Stuck (Text.splitOn '.' q) (.object navTree) := by
  have hleads : Leads ["NAV".toList, ['0'], "label".toList] (.object navTree) (.string "Home".toList) :=
    .step names_nav (.step (@Names.item ['0'] _ [] [] (.single (by decide)) (by decide))
      (.step (@Names.member "label".toList _ [] [] (by decide) List.not_mem_nil) .here))
  have hsecond : Text.splitOn '.' "NAV.1".toList = ["NAV".toList, ['1']] := by cbv
  have hfree : ¬ Stuck ["NAV".toList, ['1']] (.object navTree) := by
    rw [← hsecond]
    exact ((resolve_settles navTree).1 _).1.1 ⟨[], by cbv⟩
  have hmissing : Missing ["NAV".toList, ['1']] (.object navTree) := by
    refine ⟨["NAV".toList], ['1'], [], _, rfl, .step names_nav .here, fun w hw => ?_⟩
    have hstep := (step_eq_some_iff (by decide)).2 hw
    have hnone : step ['1'] (.array navEntries) = .ok none := by cbv
    rw [hnone] at hstep
    cases hstep
  have hstuck : Stuck ["NAV".toList, ['²']] (.object navTree) :=
    ⟨["NAV".toList], ['²'], [], _, rfl, .step names_nav .here, ⟨_, rfl⟩, by decide, .inl ⟨'²', by decide, by decide⟩⟩
  refine ⟨⟨hleads, ?_⟩, ⟨hmissing, hfree, ?_⟩, ⟨hstuck, ?_⟩, ?_⟩
  · exact ((resolve_settles navTree).1 "NAV.0.label".toList).2.1 _ hleads
  · exact ((resolve_settles navTree).1 "NAV.1".toList).2.2 hmissing hfree
  · exact fun h => ((resolve_settles navTree).1 "NAV.²".toList).1.1 h hstuck
  · exact ((resolve_settles navTree).2 _).1 ⟨"Home".toList, by cbv⟩

/-- A path of a placeholder gets stuck at an index with more digits than are read, if they are nothing but zeros. -/
theorem exists_dotted_stuck : ∃ q, Dotted q ∧ Stuck (Text.splitOn '.' q) (.object navTree) := by
  obtain ⟨index, hdigit, hlong⟩ : ∃ index : Text, (∀ c ∈ index, c = '0') ∧ Integer.digitLimit < index.length := by
    refine ⟨List.replicate (Integer.digitLimit + 1) '0', fun c hc => (List.mem_replicate.1 hc).2, ?_⟩
    rw [List.length_replicate]
    exact Nat.lt_succ_self _
  have hne : index ≠ [] := List.ne_nil_of_length_pos (Nat.zero_lt_of_lt hlong)
  have hword : ∀ t ∈ [index], t ≠ [] ∧ ∀ c ∈ t, isWord c = true := by
    rw [List.forall_mem_singleton]
    exact ⟨hne, fun c hc => hdigit c hc ▸ by decide⟩
  have hlike : ∀ c ∈ index, Text.isDigitLike c = true := fun c hc => hdigit c hc ▸ by decide
  have hdot : ∀ part ∈ ["NAV".toList, index], '.' ∉ part := by
    rw [List.forall_mem_cons, List.forall_mem_singleton]
    exact ⟨by decide, fun hdot => absurd (hdigit _ hdot) (by decide)⟩
  have hdotted : Dotted ("NAV".toList ++ [index].flatMap ('.' :: ·)) :=
    .intro (by decide) (List.all_eq_true.1 (by cbv)) (List.cons_ne_nil _ _) hword
  refine ⟨_, hdotted, ?_⟩
  rw [← Text.join_cons, Text.splitOn_join (List.cons_ne_nil _ _) hdot]
  exact ⟨["NAV".toList], index, [], _, rfl, .step names_nav .here, ⟨_, rfl⟩, Integer.looksNumeric_iff.2 ⟨hne, hlike⟩,
    .inr hlong⟩

/-- A superscript looks like an index, and so do zeros, however many. -/
theorem resolve_gets_stuck :
    (¬ ∀ path tree, ∃ t, resolve path tree = .ok t) ∧ ¬ ∀ text tree, ∃ t, render text tree = .ok t := by
  constructor
  · intro h
    obtain ⟨t, ht⟩ := h "NAV.²".toList navTree
    have herror : resolve "NAV.²".toList navTree = .error ⟨['²'], .malformed⟩ := by cbv
    rw [herror] at ht
    cases ht
  · intro h
    obtain ⟨q, hq, hstuck⟩ := exists_dotted_stuck
    obtain ⟨t, ht⟩ := h (Template.braces q) navTree
    obtain ⟨x, hx⟩ := (render_eq_ok_iff.1 ht).1 0 q ⟨hq, List.prefix_refl _⟩
    obtain ⟨e, he⟩ := resolve_fails_iff.2 hstuck
    rw [hx] at he
    cases he

end Sitewright.Variable
