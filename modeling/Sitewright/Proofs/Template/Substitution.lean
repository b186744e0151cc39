import Sitewright.Proofs.Template.Unroll
/-!
# Substitution in templates

Putting components into a text and rendering its variables are substitutions: each mark of a recogniser
gives way to a text. On printed templates a substitution of texts is a substitution of templates, if every
replacement is the printed form of a template that may stand for the atom.

* `Substituted`: one template is another one with its references and variables replaced.
* `FillsTo`: the texts for the marks of some atoms make a template of them.

Main statements: filling in the texts found for the marks of a printed template prints a substituted
template (`Sees.fill_print`), and a substitution leaves the characters at both ends of a template in their
places where these belong to literals (`Substituted.head?`, `Substituted.getLast?`).
-/
set_option autoImplicit false

namespace Sitewright.Template

/-- The template that holds a literal, a reference or a variable alone. -/
def Atom.alone : Atom → Forest
  | .literal s => .literal s .nil
  | .component t => .component t .nil
  | .value p => .value p .nil
  | _ => .nil

/-- The second template is the first one with its references and variables replaced, each by one that may
stand for it. -/
inductive Substituted (part : Atom → Forest → Prop) : Forest → Forest → Prop
  | nil : Substituted part .nil .nil
  | literal (s : Literal) {f f' : Forest} (h : Substituted part f f') :
    Substituted part (.literal s f) (.literal s f')
  | block (count : Count) {g g' f f' : Forest} (hg : Substituted part g g') (h : Substituted part f f') :
    Substituted part (.block count g f) (.block count g' f')
  | component (t : Reference) {g f f' : Forest} (hg : part (.component t) g) (h : Substituted part f f') :
    Substituted part (.component t f) (g.append f')
  | value (p : Address) {g f f' : Forest} (hg : part (.value p) g) (h : Substituted part f f') :
    Substituted part (.value p f) (g.append f')

variable {part : Atom → Forest → Prop}

/-! ## Atoms -/

/-- The atom is neither a reference nor a variable. -/
def Atom.Fixed (a : Atom) : Prop := a.token? = none ∧ a.path? = none

/-- What holds of the literals and markers of a template, and of the atoms of all replacements, holds of the
atoms of the result. -/
theorem Substituted.forall_atoms {P : Atom → Prop} {f f' : Forest} (h : Substituted part f f')
    (hfixed : ∀ a ∈ f.atoms, a.Fixed → P a) (hpart : ∀ b ∈ f.atoms, ∀ g, part b g → ∀ a ∈ g.atoms, P a) :
    ∀ a ∈ f'.atoms, P a := by
  induction h with
  | nil => exact fun a ha => absurd ha List.not_mem_nil
  | literal s _ ih =>
    rw [Forest.atoms, List.forall_mem_cons]
    exact ⟨hfixed _ List.mem_cons_self ⟨rfl, rfl⟩, ih (fun b hb => hfixed b (List.mem_cons_of_mem _ hb))
      fun b hb => hpart b (List.mem_cons_of_mem _ hb)⟩
  | @block count g g' f f' _ _ ihg ih =>
    have hleft : ∀ b ∈ g.atoms, b ∈ (Forest.block count g f).atoms := fun b hb =>
      List.mem_append_left _ (List.mem_cons_of_mem _ hb)
    have hright : ∀ b ∈ .closing :: f.atoms, b ∈ (Forest.block count g f).atoms := fun b hb =>
      List.mem_append_right _ hb
    intro a ha
    rw [Forest.atoms, List.mem_append, List.mem_cons, List.mem_cons] at ha
    rcases ha with (rfl | ha) | (rfl | ha)
    · exact hfixed _ (List.mem_append_left _ List.mem_cons_self) ⟨rfl, rfl⟩
    · exact ihg (fun b hb => hfixed b (hleft b hb)) (fun b hb => hpart b (hleft b hb)) a ha
    · exact hfixed _ (hright _ List.mem_cons_self) ⟨rfl, rfl⟩
    · exact ih (fun b hb => hfixed b (hright b (List.mem_cons_of_mem _ hb)))
        (fun b hb => hpart b (hright b (List.mem_cons_of_mem _ hb))) a ha
  | component t hg _ ih =>
    rw [Forest.atoms_append, List.forall_mem_append]
    exact ⟨hpart _ List.mem_cons_self _ hg, ih (fun b hb => hfixed b (List.mem_cons_of_mem _ hb))
      fun b hb => hpart b (List.mem_cons_of_mem _ hb)⟩
  | value p hg _ ih =>
    rw [Forest.atoms_append, List.forall_mem_append]
    exact ⟨hpart _ List.mem_cons_self _ hg, ih (fun b hb => hfixed b (List.mem_cons_of_mem _ hb))
      fun b hb => hpart b (List.mem_cons_of_mem _ hb)⟩

theorem Forest.append_assoc (f g h : Forest) : (f.append g).append h = f.append (g.append h) := by
  induction f with
  | nil => rfl
  | literal s f ih => rw [append, append, ih, append]
  | block count c f _ ih => rw [append, append, ih, append]
  | component t f ih => rw [append, append, ih, append]
  | value p f ih => rw [append, append, ih, append]

/-- A substitution in two templates behind each other is one in each of them. -/
theorem Substituted.append_inv {f g h : Forest} (hsub : Substituted part (f.append g) h) :
    ∃ f' g', Substituted part f f' ∧ Substituted part g g' ∧ h = f'.append g' := by
  induction f generalizing h with
  | nil => exact ⟨.nil, h, .nil, hsub, rfl⟩
  | literal s f ih =>
    cases hsub with
    | literal _ hrest =>
      obtain ⟨f', g', hf, hg, rfl⟩ := ih hrest
      exact ⟨.literal s f', g', .literal s hf, hg, rfl⟩
  | block count c f _ ih =>
    cases hsub with
    | block _ hc hrest =>
      obtain ⟨f', g', hf, hg, rfl⟩ := ih hrest
      exact ⟨.block count _ f', g', .block count hc hf, hg, rfl⟩
  | component t f ih =>
    cases hsub with
    | component _ hpart hrest =>
      obtain ⟨f', g', hf, hg, rfl⟩ := ih hrest
      exact ⟨_, g', .component t hpart hf, hg, (Forest.append_assoc _ _ _).symm⟩
  | value p f ih =>
    cases hsub with
    | value _ hpart hrest =>
      obtain ⟨f', g', hf, hg, rfl⟩ := ih hrest
      exact ⟨_, g', .value p hpart hf, hg, (Forest.append_assoc _ _ _).symm⟩

/-! ## The ends of a template -/

theorem Forest.print_literal (s : Literal) (f : Forest) : (Forest.literal s f).print = s.text ++ f.print :=
  rfl

theorem Forest.print_component (t : Reference) (f : Forest) :
    (Forest.component t f).print = braces t.token ++ f.print := rfl

theorem Forest.print_value (p : Address) (f : Forest) :
    (Forest.value p f).print = braces p.path ++ f.print := rfl

theorem Forest.print_block (count : Count) (g f : Forest) : (Forest.block count g f).print =
    braces ("repeat ".toList ++ count.text) ++ (g.print ++ (braces "/repeat".toList ++ f.print)) := by
  simp [Forest.print, Forest.atoms, Atom.source]

/-- A character that a template begins with, and that is no brace, stays where it is. -/
theorem Substituted.head? {f f' : Forest} (h : Substituted part f f') {c : Char}
    (hhead : f.print.head? = some c) (hc : c ≠ '\x7b') : f'.print.head? = some c := by
  induction h with
  | nil => exact hhead
  | literal s _ ih =>
    rw [Forest.print_literal] at hhead ⊢
    cases hs : s.text with
    | nil =>
      rw [hs] at hhead
      exact ih hhead
    | cons x u =>
      rw [hs] at hhead
      exact hhead
  | block count _ _ _ _ =>
    rw [Forest.print_block] at hhead
    exact absurd (Option.some.inj hhead).symm hc
  | component t _ _ _ =>
    rw [Forest.print_component] at hhead
    exact absurd (Option.some.inj hhead).symm hc
  | value p _ _ _ =>
    rw [Forest.print_value] at hhead
    exact absurd (Option.some.inj hhead).symm hc

theorem braces_ne_nil (body : Text) : braces body ≠ [] := List.cons_ne_nil _ _

theorem getLast?_braces (body : Text) : (braces body).getLast? = some '\x7d' := by
  have hbraces : braces body = ('\x7b' :: '\x7b' :: body ++ ['\x7d']) ++ ['\x7d'] := by simp [braces]
  rw [hbraces, List.getLast?_concat]

theorem Substituted.print_eq_nil {f f' : Forest} (h : Substituted part f f') (hnil : f.print = []) :
    f'.print = [] := by
  induction h with
  | nil => rfl
  | literal s _ ih =>
    rw [Forest.print_literal] at hnil ⊢
    obtain ⟨hs, hrest⟩ := List.append_eq_nil_iff.1 hnil
    rw [hs, ih hrest]
    rfl
  | block count _ _ _ _ =>
    rw [Forest.print_block] at hnil
    exact absurd (List.append_eq_nil_iff.1 hnil).1 (braces_ne_nil _)
  | component t _ _ _ => exact absurd (List.append_eq_nil_iff.1 hnil).1 (braces_ne_nil _)
  | value p _ _ _ => exact absurd (List.append_eq_nil_iff.1 hnil).1 (braces_ne_nil _)

theorem getLast?_append {u v : Text} {c : Char} (h : (u ++ v).getLast? = some c)
    (hu : v = [] → u.getLast? ≠ some c) : v.getLast? = some c := by
  rw [List.getLast?_append] at h
  cases hv : v.getLast? with
  | some x =>
    rw [hv] at h
    exact h
  | none =>
    rw [hv, Option.none_or] at h
    exact absurd h (hu (List.getLast?_eq_none_iff.1 hv))

/-- A character that a template ends with, and that is no brace, stays where it is. -/
theorem Substituted.getLast? {f f' : Forest} (h : Substituted part f f') {c : Char}
    (hlast : f.print.getLast? = some c) (hc : c ≠ '\x7d') : f'.print.getLast? = some c := by
  have hbraces : ∀ body : Text, (braces body).getLast? ≠ some c := by
    intro body hbody
    rw [getLast?_braces] at hbody
    exact hc (Option.some.inj hbody).symm
  induction h with
  | nil => exact hlast
  | @literal s f f' hf ih =>
    rw [Forest.print_literal, List.getLast?_append] at hlast ⊢
    cases hrest : f.print.getLast? with
    | none =>
      rw [hrest] at hlast
      rw [hf.print_eq_nil (List.getLast?_eq_none_iff.1 hrest)]
      exact hlast
    | some x =>
      rw [hrest] at hlast
      rw [ih (hrest.trans hlast)]
      rfl
  | @block count g g' f f' _ _ _ ih =>
    have htail : (braces "/repeat".toList ++ f.print).getLast? = some c := by
      rw [Forest.print_block, ← List.append_assoc] at hlast
      exact getLast?_append hlast fun h => absurd (List.append_eq_nil_iff.1 h).1 (braces_ne_nil _)
    rw [Forest.print_block, ← List.append_assoc, ← List.append_assoc, List.getLast?_append,
      ih (getLast?_append htail fun _ => hbraces _)]
    rfl
  | component t _ _ ih =>
    rw [Forest.print_append, List.getLast?_append, ih (getLast?_append hlast fun _ => hbraces _)]
    rfl
  | value p _ _ ih =>
    rw [Forest.print_append, List.getLast?_append, ih (getLast?_append hlast fun _ => hbraces _)]
    rfl

/-! ## Filling in -/

variable {α : Type} {r : Recognizer α} {meaning : Atom → Option α}

theorem Sees.marks_print (h : Sees r meaning) (f : Forest) :
    Scan.marks r f.print = f.atoms.filterMap meaning := by
  rw [Scan.marks, h.scan_print, Forest.pieces]
  induction f.atoms with
  | nil => rfl
  | cons a rest ih =>
    rw [List.flatMap_cons, List.filterMap_append, ih, List.filterMap_cons]
    unfold Atom.pieces
    cases meaning a with
    | some m => rfl
    | none => simp [List.filterMap_map]

theorem forall₂_append_inv {β : Type} {R : α → β → Prop} {xs ys : List α} {zs : List β}
    (h : List.Forall₂ R (xs ++ ys) zs) :
    ∃ us vs, zs = us ++ vs ∧ List.Forall₂ R xs us ∧ List.Forall₂ R ys vs := by
  induction xs generalizing zs with
  | nil => exact ⟨[], zs, rfl, .nil, h⟩
  | cons x xs ih =>
    cases h with
    | cons hx hrest =>
      obtain ⟨us, vs, rfl, hus, hvs⟩ := ih hrest
      exact ⟨_ :: us, vs, rfl, .cons hx hus, hvs⟩

/-- A recogniser of references and variables sees neither literals nor markers. -/
structure SeesLeaves (meaning : Atom → Option α) : Prop where
  literal : ∀ s, meaning (.literal s) = none
  opening : ∀ count, meaning (.opening count) = none
  closing : meaning .closing = none

theorem pieces_of_none {a : Atom} (h : meaning a = none) : a.pieces meaning = a.source.map .plain := by
  rw [Atom.pieces, h]

theorem pieces_of_some {a : Atom} {m : α} (h : meaning a = some m) :
    a.pieces meaning = [.mark m a.source] := by
  rw [Atom.pieces, h]

/-- The texts, filled in for the marks among the atoms, print the template, whatever stands behind them. -/
def FillsTo (meaning : Atom → Option α) (atoms : List Atom) (texts : List Text) (f : Forest) : Prop :=
  ∀ pieces more, Scan.fill [] (atoms.flatMap (·.pieces meaning) ++ pieces) (texts ++ more) =
    f.print ++ Scan.fill [] pieces more

theorem fillsTo_nil : FillsTo meaning [] [] .nil := fun _ _ => rfl

theorem FillsTo.append {as bs : List Atom} {us vs : List Text} {f g : Forest} (hf : FillsTo meaning as us f)
    (hg : FillsTo meaning bs vs g) : FillsTo meaning (as ++ bs) (us ++ vs) (f.append g) := by
  intro pieces more
  rw [List.flatMap_append, List.append_assoc, List.append_assoc, hf, hg, Forest.print_append, List.append_assoc]

theorem fillsTo_alone {a : Atom} (halone : a.alone.print = a.source) (h : meaning a = none) :
    FillsTo meaning [a] [] a.alone := by
  intro pieces more
  rw [List.flatMap_singleton, pieces_of_none h, Scan.fill_map_plain, halone, List.nil_append]

theorem fillsTo_mark {a : Atom} {m : α} (g : Forest) (h : meaning a = some m) : FillsTo meaning [a] [g.print] g := by
  intro pieces more
  rw [List.flatMap_singleton, pieces_of_some h, List.singleton_append, List.singleton_append, Scan.fill_mark]

theorem FillsTo.block (hleaves : SeesLeaves meaning) (count : Count) {as bs : List Atom} {us vs : List Text}
    {g f : Forest} (hg : FillsTo meaning as us g) (hf : FillsTo meaning bs vs f) :
    FillsTo meaning (.opening count :: as ++ .closing :: bs) (us ++ vs) (.block count g f) := by
  intro pieces more
  rw [List.flatMap_append, List.flatMap_cons, List.flatMap_cons, pieces_of_none (hleaves.opening count),
    pieces_of_none hleaves.closing]
  simp only [List.append_assoc]
  rw [Scan.fill_map_plain, hg, Scan.fill_map_plain, hf, Forest.print_block]
  simp only [List.append_assoc]
  rfl

/-- What becomes of one reference or variable: it stays, or the next text takes its place. -/
theorem exists_fillsTo_atom {post : α → Text → Prop} {a : Atom} {rest : List Atom} {texts : List Text}
    (halone : a.alone.print = a.source) (hkeep : meaning a = none → part a a.alone)
    (hreplace : ∀ m text, meaning a = some m → post m text → ∃ g, part a g ∧ g.print = text)
    (htexts : List.Forall₂ post ((a :: rest).filterMap meaning) texts) :
    ∃ g front texts', part a g ∧ texts = front ++ texts' ∧ FillsTo meaning [a] front g ∧
      List.Forall₂ post (rest.filterMap meaning) texts' := by
  cases hm : meaning a with
  | none =>
    rw [List.filterMap_cons_none hm] at htexts
    exact ⟨a.alone, [], texts, hkeep hm, rfl, fillsTo_alone halone hm, htexts⟩
  | some m =>
    rw [List.filterMap_cons_some hm] at htexts
    cases htexts with
    | @cons _ text _ texts' hpost hrest =>
      obtain ⟨g, hg, rfl⟩ := hreplace m text hm hpost
      exact ⟨g, [g.print], texts', hg, rfl, fillsTo_mark g hm, hrest⟩

/-- Filling in a text for each reference or variable that is seen, where every text is a template that may
stand for it, prints a substituted template. -/
theorem exists_substituted {post : α → Text → Prop} (hleaves : SeesLeaves meaning) {f : Forest}
    (hkeep : ∀ a, meaning a = none → part a a.alone)
    (hreplace : ∀ a ∈ f.atoms, ∀ m text, meaning a = some m → post m text →
      ∃ g, part a g ∧ g.print = text)
    {texts : List Text} (htexts : List.Forall₂ post (f.atoms.filterMap meaning) texts) :
    ∃ f', Substituted part f f' ∧ FillsTo meaning f.atoms texts f' := by
  induction f generalizing texts with
  | nil =>
    cases htexts
    exact ⟨.nil, .nil, fillsTo_nil⟩
  | literal s f ih =>
    rw [Forest.atoms, List.filterMap_cons_none (hleaves.literal s)] at htexts
    obtain ⟨f', hf, hfill⟩ := ih (fun a ha => hreplace a (List.mem_cons_of_mem _ ha)) htexts
    exact ⟨.literal s f', .literal s hf, (fillsTo_alone (List.append_nil _) (hleaves.literal s)).append hfill⟩
  | block count g f ihg ih =>
    rw [Forest.atoms, List.filterMap_append, List.filterMap_cons_none (hleaves.opening count),
      List.filterMap_cons_none hleaves.closing] at htexts
    obtain ⟨us, vs, rfl, hus, hvs⟩ := forall₂_append_inv htexts
    obtain ⟨g', hg, hfillg⟩ := ihg (fun a ha => hreplace a
      (List.mem_append_left _ (List.mem_cons_of_mem _ ha))) hus
    obtain ⟨f', hf, hfill⟩ := ih (fun a ha => hreplace a
      (List.mem_append_right _ (List.mem_cons_of_mem _ ha))) hvs
    exact ⟨.block count g' f', .block count hg hf, hfillg.block hleaves count hfill⟩
  | component t f ih =>
    obtain ⟨g, front, texts', hg, rfl, hfillg, htexts'⟩ := exists_fillsTo_atom (a := .component t)
      (List.append_nil _) (hkeep _) (hreplace _ List.mem_cons_self) htexts
    obtain ⟨f', hf, hfill⟩ := ih (fun a ha => hreplace a (List.mem_cons_of_mem _ ha)) htexts'
    exact ⟨g.append f', .component t hg hf, hfillg.append hfill⟩
  | value p f ih =>
    obtain ⟨g, front, texts', hg, rfl, hfillg, htexts'⟩ := exists_fillsTo_atom (a := .value p)
      (List.append_nil _) (hkeep _) (hreplace _ List.mem_cons_self) htexts
    obtain ⟨f', hf, hfill⟩ := ih (fun a ha => hreplace a (List.mem_cons_of_mem _ ha)) htexts'
    exact ⟨g.append f', .value p hg hf, hfillg.append hfill⟩

/-- The texts found for the marks of a printed template, filled in, print a substituted template. -/
theorem Sees.fill_print {post : α → Text → Prop} (h : Sees r meaning) (hleaves : SeesLeaves meaning)
    {f : Forest} (hkeep : ∀ a, meaning a = none → part a a.alone)
    (hreplace : ∀ a ∈ f.atoms, ∀ m text, meaning a = some m → post m text →
      ∃ g, part a g ∧ g.print = text)
    {texts : List Text} (htexts : List.Forall₂ post (Scan.marks r f.print) texts) :
    ∃ f', Substituted part f f' ∧ Scan.fill [] (Scan.scan r f.print) texts = f'.print := by
  rw [h.marks_print] at htexts
  obtain ⟨f', hf, hfill⟩ := exists_substituted hleaves hkeep hreplace htexts
  refine ⟨f', hf, ?_⟩
  have hall := hfill [] []
  rw [List.append_nil, List.append_nil] at hall
  rw [h.scan_print, Forest.pieces, hall]
  exact List.append_nil _

end Sitewright.Template
