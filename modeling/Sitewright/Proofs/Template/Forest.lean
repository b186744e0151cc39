import Sitewright.Component.Basic
import Sitewright.Template.Repeat
import Sitewright.Template.Variable
import Sitewright.Proofs.Text.Scanning
/-!
# Templates as forests

A template is built of literal text, repeat blocks, references to components and placeholders of
variables. Its printed form is a row of atoms: the literals, the two markers of each block, the references
and the placeholders. A recogniser that knows some of the atoms and passes over all others, whatever
stands behind them, finds them in the printed form as they were put there.

* `Forest`, `Forest.print`: templates and their text.
* `Sees`: a recogniser together with what it means by each atom.

Main statement: a scan of a printed template finds just the atoms that its recogniser sees
(`Sees.scan_print`).
-/
set_option autoImplicit false

namespace Sitewright.Template

/-! ## The parts of a template -/

/-- No character of the text is a brace. -/
def BraceFree (s : Text) : Prop := ∀ c ∈ s, c ≠ '\x7b' ∧ c ≠ '\x7d'

instance (s : Text) : Decidable (BraceFree s) :=
  List.decidableBAll (fun c => c ≠ '\x7b' ∧ c ≠ '\x7d') s

theorem BraceFree.append {s t : Text} (hs : BraceFree s) (ht : BraceFree t) : BraceFree (s ++ t) := by
  intro c hc
  rcases List.mem_append.1 hc with hc | hc
  · exact hs c hc
  · exact ht c hc

/-- A literal text. -/
structure Literal where
  text : Text
  braceFree : BraceFree text

/-- The sign of a count. -/
inductive Sign where
  | none
  | plus
  | minus

/-- A count in decimal, with as many digits as are read. -/
structure Count where
  sign : Sign
  digits : List (Fin 10)
  nonempty : digits ≠ []
  short : digits.length ≤ Integer.digitLimit

def commonSpace : Text := "common".toList

/-- A reference to a component of the default namespace. -/
structure Reference where
  path : Text
  nonempty : path ≠ []
  braceFree : BraceFree path
  trimmed : Text.trim (commonSpace ++ '/' :: path) = commonSpace ++ '/' :: path

/-- The path of a variable. -/
structure Address where
  path : Text
  isPath : Variable.isPath path = true

/-- A template. -/
inductive Forest where
  | nil
  | literal (s : Literal) (rest : Forest)
  | block (count : Count) (children rest : Forest)
  | component (t : Reference) (rest : Forest)
  | value (p : Address) (rest : Forest)

/-! ## Printing -/

def Sign.text : Sign → Text
  | .none => []
  | .plus => ['+']
  | .minus => ['-']

def digitChar (d : Fin 10) : Char := Char.ofNat (48 + d.val)

def Count.text (c : Count) : Text := c.sign.text ++ c.digits.map digitChar

def Reference.token (t : Reference) : Text := commonSpace ++ '/' :: t.path

def braces (body : Text) : Text := '\x7b' :: '\x7b' :: body ++ ['\x7d', '\x7d']

/-- A piece of the printed form of a template. -/
inductive Atom where
  | literal (s : Literal)
  | opening (count : Count)
  | closing
  | component (t : Reference)
  | value (p : Address)

def Atom.source : Atom → Text
  | .literal s => s.text
  | .opening count => braces ("repeat ".toList ++ count.text)
  | .closing => braces "/repeat".toList
  | .component t => braces t.token
  | .value p => braces p.path

/-- The atoms of a template, in order. -/
def Forest.atoms : Forest → List Atom
  | .nil => []
  | .literal s rest => .literal s :: rest.atoms
  | .block count children rest => .opening count :: children.atoms ++ .closing :: rest.atoms
  | .component t rest => .component t :: rest.atoms
  | .value p rest => .value p :: rest.atoms

def Forest.print (f : Forest) : Text := f.atoms.flatMap Atom.source

def Forest.append : Forest → Forest → Forest
  | .nil, g => g
  | .literal s rest, g => .literal s (rest.append g)
  | .block count children rest, g => .block count children (rest.append g)
  | .component t rest, g => .component t (rest.append g)
  | .value p rest, g => .value p (rest.append g)

theorem Forest.atoms_append (f g : Forest) : (f.append g).atoms = f.atoms ++ g.atoms := by
  induction f with
  | nil => rfl
  | literal s rest ih => rw [append, atoms, ih, atoms, List.cons_append]
  | block count children rest _ ih =>
    rw [append, atoms, ih, atoms]
    simp only [List.cons_append, List.append_assoc]
  | component t rest ih => rw [append, atoms, ih, atoms, List.cons_append]
  | value p rest ih => rw [append, atoms, ih, atoms, List.cons_append]

theorem Forest.print_append (f g : Forest) : (f.append g).print = f.print ++ g.print := by
  rw [print, atoms_append, List.flatMap_append]
  rfl

/-! ## Recognisers of braces -/

variable {α : Type}

/-- Every mark begins with two braces. -/
def Braced (r : Recognizer α) : Prop := ∀ s m, r s = some m → ∃ t, s = '\x7b' :: '\x7b' :: t

theorem Braced.none_of_ne {r : Recognizer α} (h : Braced r) {c : Char} {s : Text} (hc : c ≠ '\x7b') :
    r (c :: s) = none := by
  cases hr : r (c :: s) with
  | none => rfl
  | some m =>
    obtain ⟨t, ht⟩ := h _ m hr
    exact absurd (List.cons.inj ht).1 hc

theorem Braced.none_of_second {r : Recognizer α} (h : Braced r) {c d : Char} {s : Text}
    (hd : d ≠ '\x7b') : r (c :: d :: s) = none := by
  cases hr : r (c :: d :: s) with
  | none => rfl
  | some m =>
    obtain ⟨t, ht⟩ := h _ m hr
    exact absurd (List.cons.inj (List.cons.inj ht).2).1 hd

theorem Braced.quiet {r : Recognizer α} (h : Braced r) {s : Text} (hs : BraceFree s) : Scan.Quiet r s := by
  intro before c behind rest hsplit
  refine h.none_of_ne (hs c ?_).1
  rw [hsplit]
  exact List.mem_append_right _ List.mem_cons_self

/-- Behind the first of some braces no mark begins up to their end. -/
theorem Braced.quiet_tail {r : Recognizer α} (h : Braced r) {body : Text} (hbody : BraceFree body) :
    Scan.Quiet r ('\x7b' :: (body ++ ['\x7d', '\x7d'])) := by
  have htail : ∀ c ∈ body ++ ['\x7d', '\x7d'], c ≠ '\x7b' := by
    intro c hc
    rcases List.mem_append.1 hc with hc | hc
    · exact (hbody c hc).1
    · simp only [List.mem_cons, List.not_mem_nil, or_false, or_self] at hc
      rw [hc]
      decide
  intro before c behind rest hsplit
  cases before with
  | nil =>
    obtain ⟨rfl, rfl⟩ := List.cons.inj hsplit
    cases hbody' : body ++ ['\x7d', '\x7d'] with
    | nil => simp at hbody'
    | cons d rest' =>
      rw [List.cons_append]
      exact h.none_of_second (htail d (hbody' ▸ List.mem_cons_self))
  | cons x before =>
    have hb : body ++ ['\x7d', '\x7d'] = before ++ c :: behind := (List.cons.inj hsplit).2
    refine h.none_of_ne (htail c ?_)
    rw [hb]
    exact List.mem_append_right _ List.mem_cons_self

theorem Braced.quiet_braces {r : Recognizer α} (h : Braced r) {body : Text} (hbody : BraceFree body)
    (hnone : ∀ rest, r (braces body ++ rest) = none) : Scan.Quiet r (braces body) := by
  intro before c behind rest hsplit
  cases before with
  | nil =>
    have hfirst := hnone rest
    rw [hsplit] at hfirst
    exact hfirst
  | cons x before => exact h.quiet_tail hbody before c behind rest (List.cons.inj hsplit).2

/-- In a text without two opening braces in a row no mark begins, not even at its end, if none begins at a brace in
front of what follows. -/
theorem Braced.still {r : Recognizer α} (h : Braced r) {s v : Text} (hs : ¬ ['\x7b', '\x7b'] <:+: s)
    (hv : r ('\x7b' :: v) = none) : Scan.Still r s v := by
  intro before c behind hsplit
  cases hr : r (c :: (behind ++ v)) with
  | none => rfl
  | some m =>
    exfalso
    obtain ⟨t, ht⟩ := h _ m hr
    obtain ⟨rfl, htail⟩ := List.cons.inj ht
    -- the second brace of the mark stands in what follows, or next to the first one in the text
    cases behind with
    | nil =>
      rw [List.nil_append, hv] at hr
      cases hr
    | cons d behind =>
      obtain ⟨rfl, -⟩ := List.cons.inj htail
      exact hs ⟨before, behind, by simp [hsplit]⟩

/-! ## What a recogniser sees -/

/-- The body of an atom between braces; a literal has none. -/
def Atom.body? : Atom → Option Text
  | .literal _ => none
  | .opening count => some ("repeat ".toList ++ count.text)
  | .closing => some "/repeat".toList
  | .component t => some t.token
  | .value p => some p.path

/-- A recogniser sees the atoms to which a meaning is given, as a whole and whatever stands behind them,
and no others. -/
structure Sees (r : Recognizer α) (meaning : Atom → Option α) : Prop where
  braced : Braced r
  literal : ∀ s, meaning (.literal s) = none
  mark : ∀ a m, meaning a = some m → ∀ rest, r (a.source ++ rest) = some (m, a.source.length)
  other : ∀ a body, a.body? = some body → meaning a = none → ∀ rest, r (braces body ++ rest) = none

def Atom.pieces (meaning : Atom → Option α) (a : Atom) : List (Scan.Piece α) :=
  match meaning a with
  | some m => [.mark m a.source]
  | none => a.source.map .plain

theorem Atom.source_eq_braces {a : Atom} {body : Text} (h : a.body? = some body) :
    a.source = braces body := by
  cases a <;> cases h <;> rfl

theorem digitChar_spec : ∀ d : Fin 10, (digitChar d ≠ '\x7b' ∧ digitChar d ≠ '\x7d') ∧
    Text.isBlank (digitChar d) = false ∧ Integer.isEdgeBlank (digitChar d) = false ∧
    Integer.digitIn? 10 (digitChar d) = some d.val := by
  decide

theorem Count.braceFree_text (c : Count) : BraceFree c.text := by
  intro x hx
  rcases List.mem_append.1 hx with hx | hx
  · cases hsign : c.sign <;> rw [hsign] at hx
    · cases hx
    · rw [List.mem_singleton.1 hx]
      decide
    · rw [List.mem_singleton.1 hx]
      decide
  · obtain ⟨d, _, rfl⟩ := List.mem_map.1 hx
    exact (digitChar_spec d).1

theorem mem_join {sep : Text} {parts : List Text} {c : Char} (h : c ∈ Text.join sep parts) :
    c ∈ sep ∨ ∃ part ∈ parts, c ∈ part := by
  induction parts with
  | nil => cases h
  | cons a rest ih =>
    cases rest with
    | nil =>
      rw [Text.join, List.intercalate_singleton] at h
      exact .inr ⟨a, List.mem_cons_self, h⟩
    | cons b rest =>
      rw [Text.join_cons_cons] at h
      rcases List.mem_append.1 h with h | h
      · rcases List.mem_append.1 h with h | h
        · exact .inr ⟨a, List.mem_cons_self, h⟩
        · exact .inl h
      · rcases ih h with h | ⟨part, hpart, hc⟩
        · exact .inl h
        · exact .inr ⟨part, List.mem_cons_of_mem _ hpart, hc⟩

/-- The path of a variable begins with a capital letter and is made of the letters, digits, bars and dots. -/
theorem Address.spec (p : Address) :
    (∃ c s, p.path = c :: s ∧ Variable.isCapital c = true) ∧
      ∀ c ∈ p.path, (decide (c = '.') || Variable.isWord c) = true := by
  have h := p.isPath
  unfold Variable.isPath at h
  have hjoin := Text.join_splitOn '.' p.path
  split at h
  · rename_i name segments hsplit
    simp only [Bool.and_eq_true, Bool.not_eq_true', List.all_eq_true] at h
    obtain ⟨⟨⟨hname, hcapital⟩, -⟩, hword⟩ := h
    rw [hsplit] at hjoin
    constructor
    · cases name with
      | nil => cases hname
      | cons c name =>
        have hc := hcapital c List.mem_cons_self
        cases segments with
        | nil => exact ⟨c, name, by rw [← hjoin, Text.join, List.intercalate_singleton], hc⟩
        | cons a segments =>
          refine ⟨c, name ++ ['.'] ++ Text.join ['.'] (a :: segments), ?_, hc⟩
          rw [← hjoin, Text.join_cons_cons]
          rfl
    · intro c hc
      rw [← hjoin] at hc
      rcases mem_join hc with hc | ⟨part, hpart, hmem⟩
      · rw [List.mem_singleton.1 hc]
        rfl
      · rcases List.mem_cons.1 hpart with rfl | hpart
        · simp [Variable.isWord, hcapital c hmem]
        · simp [(hword part hpart).2 c hmem]
  · cases h

theorem braceFree_of_isWord {c : Char} (h : (decide (c = '.') || Variable.isWord c) = true) :
    c ≠ '\x7b' ∧ c ≠ '\x7d' := by
  constructor <;>
  · rintro rfl
    exact absurd h (by decide)

theorem Atom.braceFree_body {a : Atom} {body : Text} (h : a.body? = some body) : BraceFree body := by
  have hrepeat : BraceFree "repeat ".toList := by decide
  have hclose : BraceFree "/repeat".toList := by decide
  have hspace : BraceFree (commonSpace ++ ['/']) := by decide
  cases a with
  | literal s => cases h
  | opening count =>
    cases h
    exact BraceFree.append hrepeat count.braceFree_text
  | closing =>
    cases h
    exact hclose
  | component t =>
    cases h
    have htoken : t.token = commonSpace ++ ['/'] ++ t.path := by
      rw [List.append_assoc]
      rfl
    rw [htoken]
    exact BraceFree.append hspace t.braceFree
  | value p =>
    cases h
    intro c hc
    exact braceFree_of_isWord (p.spec.2 c hc)

variable {r : Recognizer α} {meaning : Atom → Option α}

theorem Sees.scan_atom (h : Sees r meaning) (a : Atom) (v : Text) :
    Scan.scan r (a.source ++ v) = a.pieces meaning ++ Scan.scan r v := by
  unfold Atom.pieces
  cases hm : meaning a with
  | some m =>
    have hne : a.source ≠ [] := by
      intro hnil
      have hmark := h.mark a m hm []
      rw [hnil] at hmark
      obtain ⟨t, ht⟩ := h.braced _ _ hmark
      cases ht
    exact Scan.scan_append_of_mark hne (h.mark a m hm v)
  | none =>
    refine Scan.scan_append_of_quiet ?_ v
    cases hbody : a.body? with
    | none =>
      cases a with
      | literal s => exact h.braced.quiet s.braceFree
      | _ => cases hbody
    | some body =>
      rw [Atom.source_eq_braces hbody]
      exact h.braced.quiet_braces (Atom.braceFree_body hbody) (h.other a body hbody hm)

def Forest.pieces (meaning : Atom → Option α) (f : Forest) : List (Scan.Piece α) :=
  f.atoms.flatMap (Atom.pieces meaning)

/-- A scan of a printed template finds the atoms that the recogniser sees. -/
theorem Sees.scan_print (h : Sees r meaning) (f : Forest) : Scan.scan r f.print = f.pieces meaning := by
  have hatoms : ∀ atoms : List Atom,
      Scan.scan r (atoms.flatMap Atom.source) = atoms.flatMap (Atom.pieces meaning) := by
    intro atoms
    induction atoms with
    | nil => rfl
    | cons a rest ih => rw [List.flatMap_cons, List.flatMap_cons, h.scan_atom, ih]
  exact hatoms f.atoms

end Sitewright.Template
