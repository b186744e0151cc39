import Sitewright.Proofs.Component.Expansion
import Sitewright.Proofs.Template.Meaning
/-!
# Putting components into templates

Where the markup of every token is a printed template, an injection into a printed template gives a printed
template. Each component's markup is rendered before it takes its place, so what comes in holds neither
references nor variables, and its own blocks are whole; what it means is what the reference means.

* `Placed`, `Filled`: what may stand for an atom after an injection, and after variables are rendered.
* `Needs`: the tokens that a template comes to refer to.
* `Described`: a token whose markup is the printed form of its template.

Main statements: rendering a printed template prints one with the texts of its variables (`render_print`),
and injecting into a printed template prints one with its references replaced (`expand_print_within`).
-/
set_option autoImplicit false

namespace Sitewright.Template

open Component (Ensures Known found markupIn)

/-! ## Rendering -/

/-- What may stand for an atom after variables are rendered. -/
def Filled (tree : Variables) : Atom → Forest → Prop
  | .value p, g => ∃ s : Literal, Variable.resolve p.path tree = .ok s.text ∧ g = .literal s .nil
  | a, g => g = a.alone

/-- No variable of the template has a text with a brace. -/
def Tame (tree : Variables) (f : Forest) : Prop :=
  ∀ p, .value p ∈ f.atoms → ∀ v, Variable.resolve p.path tree = .ok v → BraceFree v

theorem seesLeaves_path? : SeesLeaves Atom.path? := ⟨fun _ => rfl, fun _ => rfl, rfl⟩

theorem forall₂_of_mapM {ε α β : Type} {f : α → Except ε β} {xs : List α} {ys : List β}
    (h : xs.mapM f = .ok ys) : List.Forall₂ (fun x y => f x = .ok y) xs ys := by
  induction xs generalizing ys with
  | nil =>
    cases h
    exact .nil
  | cons x xs ih =>
    rw [List.mapM_cons] at h
    cases hx : f x with
    | error e =>
      rw [hx] at h
      cases h
    | ok y =>
      rw [hx] at h
      cases hxs : xs.mapM f with
      | error e =>
        rw [hxs] at h
        cases h
      | ok ys' =>
        rw [hxs] at h
        cases h
        exact .cons hx (ih hxs)

/-- Rendering fills in the texts of the variables from left to right. -/
theorem render_ok {tree : Variables} {s out : Text} (h : Variable.render s tree = .ok out) :
    ∃ texts, List.Forall₂ (fun path text => Variable.resolve path tree = .ok text)
        (Scan.marks Variable.placeholder s) texts ∧
      out = Scan.fill [] (Scan.scan Variable.placeholder s) texts := by
  unfold Variable.render Scan.substituteM at h
  cases htexts : (Scan.markPieces (Scan.scan Variable.placeholder s)).mapM
      (fun mark => Variable.resolve mark.1 tree) with
  | error e =>
    simp only [htexts] at h
    cases h
  | ok texts =>
    simp only [htexts] at h
    cases h
    refine ⟨texts, ?_, rfl⟩
    rw [Scan.marks_eq, List.forall₂_map_left_iff]
    exact forall₂_of_mapM htexts

/-- Where variables have texts without braces, rendering a printed template prints a template. -/
theorem render_print {tree : Variables} {f : Forest} {out : Text} (htame : Tame tree f)
    (h : Variable.render f.print tree = .ok out) :
    ∃ f', Substituted (Filled tree) f f' ∧ out = f'.print := by
  obtain ⟨texts, htexts, rfl⟩ := render_ok h
  refine sees_placeholder.fill_print seesLeaves_path? (fun a ha => ?_) (fun a ha m text hm hpost => ?_) htexts
  · cases a with
    | value p => cases ha
    | _ => rfl
  · cases a with
    | value p =>
      cases hm
      refine ⟨.literal ⟨text, htame p ha text hpost⟩ .nil, ⟨_, hpost, rfl⟩, ?_⟩
      rw [Forest.print_literal]
      exact List.append_nil text
    | _ => cases hm

variable {lib : Library} {tree : Variables}

theorem Means.of_filled {f f' : Forest} (hsub : Substituted (Filled tree) f f') {out : Text}
    (h : Means lib tree f' out) : Means lib tree f out := by
  refine h.of_substituted hsub fun a g v hg hv => ?_
  cases a with
  | value p =>
    obtain ⟨s, hs, rfl⟩ := hg
    cases hv with
    | literal _ hv =>
      cases hv
      exact .value hs .nil
  | _ =>
    cases hg
    exact hv

/-! ## Trimming -/

theorem exists_trim (s : Text) : ∃ u v, s = u ++ (Text.trim s ++ v) ∧
    (∀ c ∈ u, Text.isBlank c = true) ∧ ∀ c ∈ v, Text.isBlank c = true := by
  refine ⟨s.takeWhile Text.isBlank, ((s.dropWhile Text.isBlank).reverse.takeWhile Text.isBlank).reverse,
    ?_, fun c hc => List.mem_takeWhile_imp hc, fun c hc => ?_⟩
  · rw [Text.trim, Text.trimBoth, Text.trimEnd, ← List.reverse_append, List.takeWhile_append_dropWhile,
      List.reverse_reverse, List.takeWhile_append_dropWhile]
  · exact List.mem_takeWhile_imp (List.mem_reverse.1 hc)

/-- Blanks around a text that neither begins nor ends with one are trimmed. -/
theorem trim_append {u s v : Text} {a b : Char} (hu : ∀ c ∈ u, Text.isBlank c = true)
    (hv : ∀ c ∈ v, Text.isBlank c = true) (hhead : s.head? = some a) (ha : Text.isBlank a = false)
    (hlast : s.getLast? = some b) (hb : Text.isBlank b = false) : Text.trim (u ++ (s ++ v)) = s := by
  have hfront : (u ++ (s ++ v)).dropWhile Text.isBlank = s ++ v := by
    rw [List.dropWhile_append_of_pos hu]
    cases s with
    | nil => cases hhead
    | cons c s =>
      cases hhead
      rw [List.cons_append, List.dropWhile_cons, ha]
      rfl
  have hback : (s ++ v).reverse.dropWhile Text.isBlank = s.reverse := by
    rw [List.reverse_append, List.dropWhile_append_of_pos fun c hc => hv c (List.mem_reverse.1 hc)]
    cases hs : s.reverse with
    | nil =>
      rw [List.reverse_eq_nil_iff.1 hs] at hlast
      cases hlast
    | cons c rest =>
      rw [← List.head?_reverse, hs] at hlast
      cases hlast
      rw [List.dropWhile_cons, hb]
      rfl
  rw [Text.trim, Text.trimBoth, hfront, Text.trimEnd, hback, List.reverse_reverse]

theorem braceFree_of_blank {s : Text} (h : ∀ c ∈ s, Text.isBlank c = true) : BraceFree s := by
  intro c hc
  constructor <;>
  · rintro rfl
    exact absurd (h _ hc) (by decide)

/-- The template begins and ends with characters that are no blanks and belong to literals; only the
characters of other atoms are braces there. -/
structure Solid (f : Forest) : Prop where
  head : ∃ c, f.print.head? = some c ∧ Text.isBlank c = false ∧ c ≠ '\x7b'
  last : ∃ c, f.print.getLast? = some c ∧ Text.isBlank c = false ∧ c ≠ '\x7d'

theorem Solid.substituted {part : Atom → Forest → Prop} {f f' : Forest} (h : Solid f)
    (hsub : Substituted part f f') : Solid f' := by
  obtain ⟨⟨a, ha, hablank, habrace⟩, ⟨b, hb, hbblank, hbbrace⟩⟩ := h
  exact ⟨⟨a, hsub.head? ha habrace, hablank, habrace⟩, ⟨b, hsub.getLast? hb hbbrace, hbblank, hbbrace⟩⟩

theorem Solid.trim_print {f : Forest} (h : Solid f) {u v : Text} (hu : ∀ c ∈ u, Text.isBlank c = true)
    (hv : ∀ c ∈ v, Text.isBlank c = true) : Text.trim (u ++ (f.print ++ v)) = f.print := by
  obtain ⟨⟨a, ha, hablank, _⟩, ⟨b, hb, hbblank, _⟩⟩ := h
  exact trim_append hu hv ha hablank hb hbblank

def Forest.between (u v : Literal) (f : Forest) : Forest := .literal u (f.append (.literal v .nil))

theorem Forest.print_between (u v : Literal) (f : Forest) :
    (f.between u v).print = u.text ++ (f.print ++ v.text) := by
  rw [between, print_literal, print_append, print_literal]
  show _ ++ (_ ++ (_ ++ [])) = _
  rw [List.append_nil]

theorem Forest.mem_atoms_between {u v : Literal} {f : Forest} {a : Atom} (ha : a ∈ (f.between u v).atoms) :
    (∃ s, a = .literal s) ∨ a ∈ f.atoms := by
  rcases List.mem_cons.1 ha with rfl | ha
  · exact .inl ⟨u, rfl⟩
  · rw [atoms_append] at ha
    rcases List.mem_append.1 ha with ha | ha
    · exact .inr ha
    · exact .inl ⟨v, List.mem_singleton.1 ha⟩

theorem Substituted.between_inv {part : Atom → Forest → Prop} {u v : Literal} {f h : Forest}
    (hsub : Substituted part (f.between u v) h) : ∃ f', Substituted part f f' ∧ h = f'.between u v := by
  cases hsub with
  | literal _ hsub =>
    obtain ⟨f', g', hf, hg, rfl⟩ := hsub.append_inv
    cases hg with
    | literal _ hg =>
      cases hg
      exact ⟨f', hf, rfl⟩

/-! ## Components -/

/-- What may stand for an atom after an injection. -/
def Placed (lib : Library) (tree : Variables) : Atom → Forest → Prop
  | .component t, g => (∀ b ∈ g.atoms, b.Fixed) ∧
      ∀ v, Means lib tree g v → Means lib tree (.component t .nil) v
  | a, g => g = a.alone

theorem Means.of_placed {f f' : Forest} (hsub : Substituted (Placed lib tree) f f') {out : Text}
    (h : Means lib tree f' out) : Means lib tree f out := by
  refine h.of_substituted hsub fun a g v hg hv => ?_
  cases a with
  | component t => exact hg.2 v hv
  | _ =>
    cases hg
    exact hv

theorem seesLeaves_token? : SeesLeaves Atom.token? := ⟨fun _ => rfl, fun _ => rfl, rfl⟩

theorem mem_alone {a b : Atom} (h : b ∈ a.alone.atoms) : b = a := by
  cases a with
  | opening _ => cases h
  | closing => cases h
  | _ => exact List.mem_singleton.1 h

theorem Substituted.no_token {f f' : Forest} (h : Substituted (Placed lib tree) f f') :
    ∀ a ∈ f'.atoms, a.token? = none := by
  refine h.forall_atoms (fun _ _ hfixed => hfixed.1) fun b _ g hg a ha => ?_
  cases b with
  | component t => exact (hg.1 a ha).1
  | _ =>
    cases hg
    rw [mem_alone ha]
    rfl

theorem Substituted.no_path {f f' : Forest} (h : Substituted (Filled tree) f f') :
    ∀ a ∈ f'.atoms, a.path? = none := by
  refine h.forall_atoms (fun _ _ hfixed => hfixed.2) fun b _ g hg a ha => ?_
  cases b with
  | value p =>
    obtain ⟨s, _, rfl⟩ := hg
    rw [List.mem_singleton.1 ha]
    rfl
  | _ =>
    cases hg
    rw [mem_alone ha]
    rfl

theorem Substituted.filled_atoms {P : Atom → Prop} {f f' : Forest} (h : Substituted (Filled tree) f f')
    (hliteral : ∀ s, P (.literal s)) (hf : ∀ a ∈ f.atoms, P a) : ∀ a ∈ f'.atoms, P a := by
  refine h.forall_atoms (fun a ha _ => hf a ha) fun b hb g hg a ha => ?_
  cases b with
  | value p =>
    obtain ⟨s, _, rfl⟩ := hg
    rw [List.mem_singleton.1 ha]
    exact hliteral s
  | _ =>
    cases hg
    rw [mem_alone ha]
    exact hf _ hb

theorem Tame.placed {f f' : Forest} (htame : Tame tree f) (hsub : Substituted (Placed lib tree) f f') :
    Tame tree f' := by
  have hvalues : ∀ a ∈ f'.atoms, ∀ p, a = .value p → a ∈ f.atoms := by
    refine hsub.forall_atoms (fun a ha _ _ _ => ha) ?_
    rintro b hb g hg a ha p rfl
    cases b with
    | component t => cases (hg.1 _ ha).2
    | _ =>
      cases hg
      rw [mem_alone ha]
      exact hb
  exact fun p hp => htame p (hvalues _ hp p rfl)

/-! ## Tokens -/

/-- A token that a template refers to, or that the template of such a token refers to. -/
inductive Needs (lib : Library) (f : Forest) : Text → Prop
  | page {t : Reference} (h : .component t ∈ f.atoms) : Needs lib f t.token
  | inner {u : Text} {g : Forest} {t : Reference} (hu : Needs lib f u) (hlib : lib u = some g)
    (h : .component t ∈ g.atoms) : Needs lib f t.token

theorem Needs.of_subset {f f' : Forest} (h : ∀ a ∈ f'.atoms, a ∈ f.atoms) {u : Text}
    (hu : Needs lib f' u) : Needs lib f u := by
  induction hu with
  | page ht => exact .page (h _ ht)
  | inner _ hlib ht ih => exact .inner ih hlib ht

/-- A token has a template and only then a component. This has neither stylesheet nor script, and its markup
is the printed form of the template with blanks around. -/
structure Described (site : Site) (d : Disk) (tree : Variables) (lib : Library) (token : Text) : Prop where
  missing : markupIn site d token = .ok none → lib token = none
  markup : ∀ m, markupIn site d token = .ok (some m) →
    ∃ f, lib token = some f ∧ Text.trim m = f.print ∧ Solid f ∧ Tame tree f
  plain : ∀ c, found site d token = .ok (some c) → c.stylesheet = none ∧ c.script = none

variable {site : Site} {d : Disk}

/-- A markup is rendered and trimmed once its references are replaced; then it may stand for its token. -/
theorem placed_of_render {token : Reference} {g h : Forest} {u v : Literal} {s : Text}
    (hlib : lib token.token = some g) (hsolid : Solid g) (htame : Tame tree g)
    (hu : ∀ c ∈ u.text, Text.isBlank c = true) (hv : ∀ c ∈ v.text, Text.isBlank c = true)
    (hsub : Substituted (Placed lib tree) (g.between u v) h)
    (hrender : Variable.render h.print tree = .ok s) :
    ∃ g', Placed lib tree (.component token) g' ∧ g'.print = Text.trim s := by
  obtain ⟨g', hg', rfl⟩ := hsub.between_inv
  have htame' : Tame tree (g'.between u v) := by
    intro p hp
    rcases Forest.mem_atoms_between hp with ⟨s, hs⟩ | hp
    · cases hs
    · exact htame.placed hg' p hp
  obtain ⟨k, hk, rfl⟩ := render_print htame' hrender
  obtain ⟨g'', hg'', rfl⟩ := hk.between_inv
  have hfixed : ∀ a ∈ g''.atoms, a.Fixed := fun a ha =>
    ⟨hg''.filled_atoms (fun _ => rfl) hg'.no_token a ha, hg''.no_path a ha⟩
  refine ⟨g'', ⟨hfixed, fun out hout => ?_⟩, ?_⟩
  · rw [← List.append_nil out]
    exact .component hlib (Means.of_placed hg' (Means.of_filled hg'' hout)) .nil
  · rw [Forest.print_between, ((hsolid.substituted hg').substituted hg'').trim_print hu hv]

/-- What takes the place of a reference may stand for it, if an expansion of a markup under one token more prints
a template. -/
theorem ensures_placed {page : Forest} (hdescribed : ∀ t, Needs lib page t → Described site d tree lib t)
    {depth : Nat} {stack : List Text} {t : Reference} (hneed : Needs lib page t.token)
    (hexpand : ∀ {f : Forest}, (∀ u, .component u ∈ f.atoms → Needs lib page u.token) →
      Ensures d (Known site d (Needs lib page)) (Component.expand site tree depth (stack ++ [t.token]) f.print)
        (fun out => ∃ f', Substituted (Placed lib tree) f f' ∧ out = f'.print) (fun _ => True)) :
    Ensures d (Known site d (Needs lib page)) (Component.replacementOf site tree depth stack t.token)
      (fun text => ∀ u : Reference, u.token = t.token → ∃ g, Placed lib tree (.component u) g ∧ g.print = text)
      (fun _ => True) := by
  have htrim : Text.trim t.token = t.token := t.trimmed
  refine Ensures.replacementOf (htrim.symm ▸ hneed) (fun _ => trivial) (fun _ _ => trivial)
    (fun _ => trivial) ?_ ?_
  · intro _ hnone u hu
    rw [htrim] at hnone
    have hlib := (hdescribed _ hneed).missing hnone
    exact ⟨.nil, ⟨fun b hb => absurd hb List.not_mem_nil, fun v hv => .missing (hu.symm ▸ hlib) hv⟩, rfl⟩
  · intro _ m hm
    rw [htrim] at hm ⊢
    obtain ⟨g, hlib, htext, hsolid, htame⟩ := (hdescribed _ hneed).markup m hm
    -- a markup is expanded with the blanks around it off, so it is printed between them
    obtain ⟨u, v, hsplit, hu, hv⟩ := exists_trim m
    have hprint : m = (g.between ⟨u, braceFree_of_blank hu⟩ ⟨v, braceFree_of_blank hv⟩).print := by
      rw [Forest.print_between, ← htext]
      exact hsplit
    rw [hprint]
    refine (hexpand fun w hw => ?_).mono ?_ fun _ h => h
    · rcases Forest.mem_atoms_between hw with ⟨s, hs⟩ | hw
      · cases hs
      · exact .inner hneed hlib hw
    · rintro inner ⟨h, hsub, rfl⟩ s hs w hw
      exact placed_of_render (hw.symm ▸ hlib) hsolid htame hu hv hsub hs

/-- Where the markups of all tokens needed are printed templates, an expansion of a printed template prints a
template with its references replaced. -/
theorem expand_print_within (hspace : site.componentNamespace = commonSpace) {page : Forest}
    (hdescribed : ∀ t, Needs lib page t → Described site d tree lib t) (depth : Nat) (stack : List Text)
    {f : Forest} (hneeds : ∀ t, .component t ∈ f.atoms → Needs lib page t.token) :
    Ensures d (Known site d (Needs lib page)) (Component.expand site tree depth stack f.print)
      (fun out => ∃ f', Substituted (Placed lib tree) f f' ∧ out = f'.print) (fun _ => True) := by
  induction depth generalizing stack f with
  | zero => exact Ensures.throw trivial
  | succ depth ih =>
    have hreferences : Component.references site f.print = f.atoms.filterMap Atom.token? := by
      rw [Component.references, hspace, sees_reference.marks_print]
    have hraw : ∀ raw ∈ Component.references site f.print,
        Ensures d (Known site d (Needs lib page)) (Component.replacementOf site tree depth stack raw)
          (fun text => ∀ t : Reference, t.token = raw →
            ∃ g, Placed lib tree (.component t) g ∧ g.print = text) (fun _ => True) := by
      intro raw hraw
      rw [hreferences] at hraw
      obtain ⟨a, ha, htoken⟩ := List.mem_filterMap.1 hraw
      obtain ⟨t, rfl, rfl⟩ : ∃ t : Reference, a = .component t ∧ t.token = raw := by
        cases a with
        | component t => exact ⟨t, rfl, Option.some.inj htoken⟩
        | _ => cases htoken
      exact ensures_placed hdescribed (hneeds t ha) (ih (stack ++ [t.token]))
    refine (Ensures.expand_succ hraw).mono ?_ fun _ h => h
    rintro out ⟨texts, htexts, rfl⟩
    rw [Component.references, hspace] at htexts
    rw [hspace]
    refine sees_reference.fill_print seesLeaves_token? (fun a ha => ?_) (fun a _ m text hm hpost => ?_) htexts
    · cases a with
      | component t => cases ha
      | _ => rfl
    · cases a with
      | component t => exact hpost t (Option.some.inj hm)
      | _ => cases hm

end Sitewright.Template
