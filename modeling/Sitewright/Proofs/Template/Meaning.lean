import Sitewright.Proofs.Template.Substitution
/-!
# What a template means

A literal means itself, a block what its children mean as often as its count says, a reference what the
template of its token means, or nothing where there is none, and a variable the text at its path. A
meaning is a text without any trace of the passes in which a page is assembled; each pass is shown to keep
it.

* `Means`: the meaning of a template, given the templates of the tokens and the tree of variables.

Main statements: a template has at most one meaning (`Means.unique`), and the meanings of its unrolling
(`Means.of_unroll`) and of a substituted template (`Means.of_substituted`) are meanings of the template.
-/
set_option autoImplicit false

namespace Sitewright.Template

abbrev Library := Text → Option Forest

/-- The meaning of a template. A block that is never repeated means nothing, whatever its children. -/
inductive Means (lib : Library) (tree : Variables) : Forest → Text → Prop
  | nil : Means lib tree .nil []
  | literal (s : Literal) {f : Forest} {out : Text} (h : Means lib tree f out) :
    Means lib tree (.literal s f) (s.text ++ out)
  | skipped {count : Count} (g : Forest) {f : Forest} {out : Text} (hcount : count.times = 0)
    (h : Means lib tree f out) : Means lib tree (.block count g f) out
  | block (count : Count) {g f : Forest} {inner out : Text} (hg : Means lib tree g inner)
    (h : Means lib tree f out) :
    Means lib tree (.block count g f) (Repeat.several count.times inner ++ out)
  | missing {t : Reference} {f : Forest} {out : Text} (hlib : lib t.token = none)
    (h : Means lib tree f out) : Means lib tree (.component t f) out
  | component {t : Reference} {g f : Forest} {inner out : Text} (hlib : lib t.token = some g)
    (hg : Means lib tree g inner) (h : Means lib tree f out) :
    Means lib tree (.component t f) (inner ++ out)
  | value {p : Address} {f : Forest} {inner out : Text} (hp : Variable.resolve p.path tree = .ok inner)
    (h : Means lib tree f out) : Means lib tree (.value p f) (inner ++ out)

variable {lib : Library} {tree : Variables}

/-- A template has at most one meaning. -/
theorem Means.unique {f : Forest} {a b : Text} (ha : Means lib tree f a) (hb : Means lib tree f b) :
    a = b := by
  induction ha generalizing b with
  | nil =>
    cases hb
    rfl
  | literal s _ ih =>
    cases hb with
    | literal _ hb => rw [ih hb]
  | skipped g hcount _ ih =>
    cases hb with
    | skipped _ _ hb => exact ih hb
    -- a block that is repeated zero times may be skipped or unrolled, to the same text
    | block _ _ hb =>
      rw [hcount, ih hb]
      rfl
  | block count _ _ ihg ih =>
    cases hb with
    | skipped _ hcount hb =>
      rw [hcount, ih hb]
      rfl
    | block _ hg hb => rw [ihg hg, ih hb]
  | missing hlib _ ih =>
    cases hb with
    | missing _ hb => exact ih hb
    | component hlib' _ _ =>
      rw [hlib] at hlib'
      cases hlib'
  | component hlib _ _ ihg ih =>
    cases hb with
    | missing hlib' _ =>
      rw [hlib] at hlib'
      cases hlib'
    | component hlib' hg hb =>
      rw [hlib] at hlib'
      cases hlib'
      rw [ihg hg, ih hb]
  | value hp _ ih =>
    cases hb with
    | value hp' hb =>
      rw [hp] at hp'
      cases hp'
      rw [ih hb]

/-! ## Templates behind each other -/

theorem Means.append {f g : Forest} {a b : Text} (ha : Means lib tree f a) (hb : Means lib tree g b) :
    Means lib tree (f.append g) (a ++ b) := by
  induction ha with
  | nil => exact hb
  | literal s _ ih =>
    rw [List.append_assoc]
    exact .literal s ih
  | skipped g hcount _ ih => exact .skipped g hcount ih
  | block count hg _ _ ih =>
    rw [List.append_assoc]
    exact .block count hg ih
  | missing hlib _ ih => exact .missing hlib ih
  | component hlib hg _ _ ih =>
    rw [List.append_assoc]
    exact .component hlib hg ih
  | value hp _ ih =>
    rw [List.append_assoc]
    exact .value hp ih

theorem Means.append_inv {f g : Forest} {out : Text} (h : Means lib tree (f.append g) out) :
    ∃ a b, out = a ++ b ∧ Means lib tree f a ∧ Means lib tree g b := by
  induction f generalizing out with
  | nil => exact ⟨[], out, rfl, .nil, h⟩
  | literal s f ih =>
    cases h with
    | literal _ h =>
      obtain ⟨a, b, rfl, ha, hb⟩ := ih h
      exact ⟨s.text ++ a, b, (List.append_assoc _ _ _).symm, .literal s ha, hb⟩
  | block count c f _ ih =>
    cases h with
    | skipped _ hcount h =>
      obtain ⟨a, b, rfl, ha, hb⟩ := ih h
      exact ⟨a, b, rfl, .skipped c hcount ha, hb⟩
    | block _ hc h =>
      obtain ⟨a, b, rfl, ha, hb⟩ := ih h
      exact ⟨_, b, (List.append_assoc _ _ _).symm, .block count hc ha, hb⟩
  | component t f ih =>
    cases h with
    | missing hlib h =>
      obtain ⟨a, b, rfl, ha, hb⟩ := ih h
      exact ⟨a, b, rfl, .missing hlib ha, hb⟩
    | component hlib hg h =>
      obtain ⟨a, b, rfl, ha, hb⟩ := ih h
      exact ⟨_, b, (List.append_assoc _ _ _).symm, .component hlib hg ha, hb⟩
  | value p f ih =>
    cases h with
    | value hp h =>
      obtain ⟨a, b, rfl, ha, hb⟩ := ih h
      exact ⟨_, b, (List.append_assoc _ _ _).symm, .value hp ha, hb⟩

theorem Means.several_inv {f : Forest} {n : Nat} {out : Text} (h : Means lib tree (f.several n) out) :
    (n = 0 ∧ out = []) ∨ ∃ v, Means lib tree f v ∧ out = Repeat.several n v := by
  induction n generalizing out with
  | zero =>
    cases h
    exact .inl ⟨rfl, rfl⟩
  | succ n ih =>
    obtain ⟨a, b, rfl, ha, hb⟩ := h.append_inv
    refine .inr ⟨a, ha, ?_⟩
    rcases ih hb with ⟨rfl, rfl⟩ | ⟨v, hv, rfl⟩
    · rfl
    · rw [Repeat.several_succ, ha.unique hv]

/-! ## The passes -/

/-- What the unrolled template means is what the template means. -/
theorem Means.of_unroll {f : Forest} {out : Text} (h : Means lib tree f.unroll out) :
    Means lib tree f out := by
  induction f generalizing out with
  | nil => exact h
  | literal s f ih =>
    cases h with
    | literal _ h => exact .literal s (ih h)
  | block count g f ihg ih =>
    obtain ⟨a, b, rfl, ha, hb⟩ := Means.append_inv h
    rcases ha.several_inv with ⟨hcount, rfl⟩ | ⟨v, hv, rfl⟩
    · exact .skipped g hcount (ih hb)
    · exact .block count (ihg hv) (ih hb)
  | component t f ih =>
    cases h with
    | missing hlib h => exact .missing hlib (ih h)
    | component hlib hg h => exact .component hlib hg (ih h)
  | value p f ih =>
    cases h with
    | value hp h => exact .value hp (ih h)

/-- What a substituted template means is what the template means, if every replacement means what it stands
for. -/
theorem Means.of_substituted {part : Atom → Forest → Prop} {f f' : Forest}
    (hsub : Substituted part f f')
    (hpart : ∀ a g v, part a g → Means lib tree g v → Means lib tree a.alone v) {out : Text}
    (h : Means lib tree f' out) : Means lib tree f out := by
  induction hsub generalizing out with
  | nil => exact h
  | literal s _ ih =>
    cases h with
    | literal _ h => exact .literal s (ih h)
  | block count _ _ ihg ih =>
    cases h with
    | skipped _ hcount h => exact .skipped _ hcount (ih h)
    | block _ hg h => exact .block count (ihg hg) (ih h)
  | component t hg _ ih =>
    obtain ⟨a, b, rfl, ha, hb⟩ := h.append_inv
    exact (hpart _ _ a hg ha).append (ih hb)
  | value p hg _ ih =>
    obtain ⟨a, b, rfl, ha, hb⟩ := h.append_inv
    exact (hpart _ _ a hg ha).append (ih hb)

theorem means_print {f : Forest} (h : ∀ a ∈ f.atoms, ∃ s, a = .literal s) : Means lib tree f f.print := by
  induction f with
  | nil => exact .nil
  | literal s f ih => exact .literal s (ih fun a ha => h a (List.mem_cons_of_mem _ ha))
  | block count g f _ _ =>
    obtain ⟨s, hs⟩ := h (.opening count) List.mem_cons_self
    cases hs
  | component t f _ =>
    obtain ⟨s, hs⟩ := h (.component t) List.mem_cons_self
    cases hs
  | value p f _ =>
    obtain ⟨s, hs⟩ := h (.value p) List.mem_cons_self
    cases hs

end Sitewright.Template
