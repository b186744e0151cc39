import Sitewright.Proofs.Template.Tokens
/-!
# Matching markers

The forest of a text is read back as its tokens, each text and each marker of a block in its place. A block stands for
an opening marker and the first close behind it up to which there are as many closes as openings. Markers that have no
such partner are texts.

* `Repeat.parts`, `Repeat.spans`: the parts of a forest in order, and where its blocks begin and end.
* `Repeat.Closes`: a close is the partner of an opening marker.
* `Repeat.Reads`: a row of tokens makes up some nodes.

Main statement: `Repeat.parse_matches`.
-/
set_option autoImplicit false

namespace Sitewright.Repeat

/-! ## Reading a forest -/

/-- What is read of a forest: a text, or the begin or the end of a block. -/
inductive Part where
  | text (s : Text)
  | opens (count openTag : Text)
  | closes
deriving DecidableEq

/-- The parts of a forest, in order. -/
def parts : List Node → List Part
  | [] => []
  | .text s :: rest => .text s :: parts rest
  | .block count openTag children :: rest => .opens count openTag :: (parts children ++ .closes :: parts rest)

/-- A part stands for a token: a text for one with these characters, and the ends of a block for markers. -/
inductive Stands : Part → Token → Prop
  | text (t : Token) : Stands (.text t.source) t
  | opens (count openTag : Text) : Stands (.opens count openTag) (.opening count openTag)
  | closes (source : Text) : Stands .closes (.closing source)

/-- Where the blocks of a forest begin and end, by the places of their parts; the first part has the place `start`. -/
def spans (start : Nat) : List Node → List (Nat × Nat)
  | [] => []
  | .text _ :: rest => spans (start + 1) rest
  | .block _ _ children :: rest =>
    (start, start + 1 + (parts children).length) ::
      (spans (start + 1) children ++ spans (start + 1 + (parts children).length + 1) rest)

/-! ## Partners -/

def Token.isOpening : Token → Bool
  | .opening _ _ => true
  | _ => false

def Token.isClosing : Token → Bool
  | .closing _ => true
  | _ => false

def opens (ts : List Token) : Nat := ts.countP Token.isOpening

def closes (ts : List Token) : Nat := ts.countP Token.isClosing

def between (ts : List Token) (i j : Nat) : List Token := (ts.take (j + 1)).drop i

/-- From an opening marker to a close behind it there are as many closes as openings. -/
structure Meets (ts : List Token) (i j : Nat) : Prop where
  lt : i < j
  opening : ∃ count source, ts[i]? = some (.opening count source)
  closing : ∃ source, ts[j]? = some (.closing source)
  level : closes (between ts i j) = opens (between ts i j)

/-- The close is the first one that an opening marker meets. -/
def Closes (ts : List Token) (i j : Nat) : Prop := Meets ts i j ∧ ∀ k < j, ¬ Meets ts i k

theorem Closes.unique {ts : List Token} {i j k : Nat} (hj : Closes ts i j) (hk : Closes ts i k) : j = k := by
  rcases Nat.lt_trichotomy j k with hlt | heq | hlt
  · exact absurd hj.1 (hk.2 j hlt)
  · exact heq
  · exact absurd hk.1 (hj.2 k hlt)

theorem opens_append (ts us : List Token) : opens (ts ++ us) = opens ts + opens us := List.countP_append

theorem closes_append (ts us : List Token) : closes (ts ++ us) = closes ts + closes us := List.countP_append

@[simp] theorem opens_nil : opens [] = 0 := rfl

@[simp] theorem closes_nil : closes [] = 0 := rfl

@[simp] theorem opens_text (s : Text) (ts : List Token) : opens (.text s :: ts) = opens ts := rfl

@[simp] theorem closes_text (s : Text) (ts : List Token) : closes (.text s :: ts) = closes ts := rfl

@[simp] theorem opens_opening (count source : Text) (ts : List Token) :
    opens (.opening count source :: ts) = opens ts + 1 := List.countP_cons_of_pos rfl

@[simp] theorem closes_opening (count source : Text) (ts : List Token) :
    closes (.opening count source :: ts) = closes ts := rfl

@[simp] theorem opens_closing (source : Text) (ts : List Token) : opens (.closing source :: ts) = opens ts := rfl

@[simp] theorem closes_closing (source : Text) (ts : List Token) :
    closes (.closing source :: ts) = closes ts + 1 := List.countP_cons_of_pos rfl

section

variable {before ts : List Token} {count source : Text}

theorem between_append (before ts : List Token) (t : Token) (k : Nat) :
    between (before ++ t :: ts) before.length (before.length + 1 + k) = t :: ts.take (k + 1) := by
  have hlen : before.length + 1 + k + 1 = before.length + (k + 2) := by omega
  rw [between, hlen, List.take_length_add_append, List.drop_left, List.take_succ_cons]

/-- What an opening marker meets is a close behind as many openings as closes. -/
theorem meets_iff {j : Nat} : Meets (before ++ .opening count source :: ts) before.length j ↔
    ∃ inner tag behind, ts = inner ++ .closing tag :: behind ∧ j = before.length + 1 + inner.length ∧
      closes inner = opens inner := by
  constructor
  · rintro ⟨hlt, -, ⟨tag, htag⟩, hlevel⟩
    obtain ⟨k, rfl⟩ : ∃ k, j = before.length + 1 + k := ⟨j - before.length - 1, by omega⟩
    rw [Nat.add_assoc, List.getElem?_append_right (Nat.le_add_right _ _), Nat.add_sub_cancel_left, Nat.add_comm 1,
      List.getElem?_cons_succ] at htag
    obtain ⟨hk, htag⟩ := List.getElem?_eq_some_iff.1 htag
    rw [between_append, List.take_succ_eq_append_getElem hk, htag] at hlevel
    refine ⟨ts.take k, tag, ts.drop (k + 1), ?_, ?_, ?_⟩
    · rw [← htag, ← List.drop_eq_getElem_cons hk, List.take_append_drop]
    · rw [List.length_take_of_le hk.le]
    · simp only [closes_opening, opens_opening, closes_append, opens_append, closes_closing, opens_closing, closes_nil,
        opens_nil] at hlevel
      omega
  · rintro ⟨inner, tag, behind, rfl, rfl, hlevel⟩
    refine ⟨by omega, ⟨count, source, ?_⟩, ⟨tag, ?_⟩, ?_⟩
    · rw [List.getElem?_append_right le_rfl, Nat.sub_self]
      rfl
    · rw [Nat.add_assoc, List.getElem?_append_right (Nat.le_add_right _ _), Nat.add_sub_cancel_left, Nat.add_comm 1,
        List.getElem?_cons_succ, List.getElem?_append_right le_rfl, Nat.sub_self]
      rfl
    · have htake : (inner ++ .closing tag :: behind).take (inner.length + 1) = inner ++ [.closing tag] := by
        rw [List.take_length_add_append]
        rfl
      rw [between_append, htake]
      simp only [closes_opening, opens_opening, closes_append, opens_append, closes_closing, opens_closing, closes_nil,
        opens_nil]
      omega

/-- In no front of the row there are more closes than openings. -/
def Rising (ts : List Token) : Prop := ∀ front, front <+: ts → closes front ≤ opens front

theorem Rising.ne_of_prefix {inner : List Token} {tag : Text} (h : Rising ts) (hpre : inner ++ [.closing tag] <+: ts) :
    closes inner ≠ opens inner := by
  have hle := h _ hpre
  rw [closes_append, opens_append] at hle
  simp only [closes_closing, opens_closing, closes_nil, opens_nil] at hle
  omega

theorem Rising.not_meets (h : Rising ts) (j : Nat) :
    ¬ Meets (before ++ .opening count source :: ts) before.length j := by
  rw [meets_iff]
  rintro ⟨inner, tag, behind, rfl, -, hlevel⟩
  have hpre : inner ++ [.closing tag] <+: inner ++ .closing tag :: behind := ⟨behind, by simp⟩
  exact h.ne_of_prefix hpre hlevel

theorem Rising.closes_first {inner : List Token} (h : Rising inner) (hlevel : closes inner = opens inner) (tag : Text)
    (behind : List Token) : Closes (before ++ .opening count source :: (inner ++ .closing tag :: behind)) before.length
      (before.length + 1 + inner.length) := by
  refine ⟨meets_iff.2 ⟨inner, tag, behind, rfl, rfl, hlevel⟩, fun k hk hmeets => ?_⟩
  obtain ⟨inner', tag', behind', hsplit, rfl, hlevel'⟩ := meets_iff.1 hmeets
  have hfront : inner' ++ [.closing tag'] <+: inner ++ .closing tag :: behind := ⟨behind', by rw [hsplit]; simp⟩
  have hshort : (inner' ++ [Token.closing tag']).length ≤ inner.length := by
    rw [List.length_append, List.length_singleton]
    omega
  exact h.ne_of_prefix (List.prefix_of_prefix_length_le hfront (List.prefix_append _ _) hshort) hlevel'

theorem Rising.nil : Rising [] := by
  intro front hfront
  rw [List.eq_nil_of_prefix_nil hfront]
  exact le_rfl

theorem Rising.text (s : Text) (h : Rising ts) : Rising (.text s :: ts) := by
  intro front hfront
  rcases List.prefix_cons_iff.1 hfront with rfl | ⟨tail, rfl, htail⟩
  · exact le_rfl
  · exact h tail htail

theorem Rising.opening (h : Rising ts) : Rising (.opening count source :: ts) := by
  intro front hfront
  rcases List.prefix_cons_iff.1 hfront with rfl | ⟨tail, rfl, htail⟩
  · exact le_rfl
  · rw [closes_opening, opens_opening]
    exact Nat.le_succ_of_le (h tail htail)

theorem Rising.block {inner : List Token} (hinner : Rising inner) (hlevel : closes inner = opens inner)
    (h : Rising ts) (tag : Text) : Rising (.opening count source :: (inner ++ .closing tag :: ts)) := by
  intro front hfront
  rcases List.prefix_cons_iff.1 hfront with rfl | ⟨tail, rfl, behind, hsplit⟩
  · exact le_rfl
  · rw [closes_opening, opens_opening]
    rcases List.append_eq_append_iff.1 hsplit with ⟨rest, rfl, -⟩ | ⟨rest, rfl, hrest⟩
    · exact Nat.le_succ_of_le (hinner tail (List.prefix_append _ _))
    · rw [closes_append, opens_append, hlevel]
      rcases List.prefix_cons_iff.1 ⟨behind, hrest.symm⟩ with rfl | ⟨rest, rfl, hmore⟩
      · exact Nat.le_succ _
      · have hle := h rest hmore
        rw [closes_closing, opens_closing]
        omega

theorem Rising.append {us : List Token} (h : Rising ts) (hus : Rising us) : Rising (ts ++ us) := by
  rintro front ⟨behind, hsplit⟩
  rcases List.append_eq_append_iff.1 hsplit with ⟨tail, rfl, -⟩ | ⟨tail, rfl, rfl⟩
  · exact h front (List.prefix_append _ _)
  · rw [closes_append, opens_append]
    exact Nat.add_le_add (h ts (List.prefix_refl ts)) (hus tail (List.prefix_append _ _))

end

/-! ## Rows of tokens that make up nodes -/

/-- A row of tokens makes up some nodes. Only outside of all blocks are there markers that are texts: closes, and
openings behind which there are never more closes than openings. -/
inductive Reads : Bool → List Node → List Token → Prop
  | nil {outer : Bool} : Reads outer [] []
  | text {outer : Bool} {ns : List Node} {ts : List Token} (s : Text) (h : Reads outer ns ts) :
      Reads outer (.text s :: ns) (.text s :: ts)
  | block {outer : Bool} {children ns : List Node} {inner ts : List Token} (count openTag source : Text)
      (hinner : Reads false children inner) (h : Reads outer ns ts) :
      Reads outer (.block count openTag children :: ns) (.opening count openTag :: (inner ++ .closing source :: ts))
  | closing {ns : List Node} {ts : List Token} (source : Text) (h : Reads true ns ts) :
      Reads true (.text source :: ns) (.closing source :: ts)
  | opening {ns : List Node} {ts : List Token} (count source : Text) (hrising : Rising ts) (h : Reads true ns ts) :
      Reads true (.text source :: ns) (.opening count source :: ts)

namespace Reads

variable {outer : Bool} {ns ns' : List Node} {ts ts' : List Token}

/-- The parts of the nodes stand for the tokens, one for one. -/
theorem stands (h : Reads outer ns ts) : List.Forall₂ Stands (parts ns) ts := by
  induction h with
  | nil =>
    rw [parts]
    exact .nil
  | text s h ih =>
    rw [parts]
    exact .cons (.text (.text s)) ih
  | block count openTag source hinner h ihInner ih =>
    rw [parts]
    exact .cons (.opens count openTag) (List.rel_append ihInner (.cons (.closes source) ih))
  | closing source h ih =>
    rw [parts]
    exact .cons (.text (.closing source)) ih
  | opening count source hrising h ih =>
    rw [parts]
    exact .cons (.text (.opening count source)) ih

theorem length_parts (h : Reads outer ns ts) : (parts ns).length = ts.length := h.stands.length_eq

/-- In a row within a block the markers are balanced. -/
theorem balanced (h : Reads outer ns ts) (hinside : outer = false) : Rising ts ∧ closes ts = opens ts := by
  induction h with
  | nil => exact ⟨Rising.nil, rfl⟩
  | text s h ih =>
    obtain ⟨hrising, hlevel⟩ := ih hinside
    exact ⟨hrising.text s, hlevel⟩
  | @block outer children ns inner ts count openTag source hinner h ihInner ih =>
    obtain ⟨hrisingInner, hlevelInner⟩ := ihInner rfl
    obtain ⟨hrising, hlevel⟩ := ih hinside
    refine ⟨hrisingInner.block hlevelInner hrising source, ?_⟩
    simp only [closes_opening, opens_opening, closes_append, opens_append, closes_closing, opens_closing, hlevel,
      hlevelInner]
    omega
  | closing source h ih => cases hinside
  | opening count source hrising h ih => cases hinside

theorem append (h : Reads outer ns ts) (hinside : outer = false) {outer' : Bool} (h' : Reads outer' ns' ts') :
    Reads outer' (ns ++ ns') (ts ++ ts') := by
  induction h with
  | nil => exact h'
  | text s h ih => exact .text s (ih hinside)
  | block count openTag source hinner h ihInner ih =>
    have hrest := ih hinside
    simp only [List.cons_append, List.append_assoc]
    exact .block count openTag source hinner hrest
  | closing source h ih => cases hinside
  | opening count source hrising h ih => cases hinside

end Reads

/-- Wherever the row stands, each block of the nodes ends at the first close that its opening marker meets. -/
def Partnered (ns : List Node) (ts : List Token) : Prop :=
  ∀ before behind i j, (i, j) ∈ spans before.length ns → Closes (before ++ (ts ++ behind)) i j

theorem Partnered.cons {ns : List Node} {ts : List Token} (h : Partnered ns ts) (s : Text) (t : Token) :
    Partnered (.text s :: ns) (t :: ts) := by
  intro before behind i j hspan
  rw [spans] at hspan
  have hlen : (before ++ [t]).length = before.length + 1 := List.length_append
  have hmore := h (before ++ [t]) behind i j (hlen ▸ hspan)
  rwa [List.append_assoc] at hmore

theorem Partnered.block {children ns : List Node} {inner ts : List Token} (hinner : Partnered children inner)
    (h : Partnered ns ts) (hlen : (parts children).length = inner.length) (hrising : Rising inner)
    (hlevel : closes inner = opens inner) (count openTag source : Text) :
    Partnered (.block count openTag children :: ns) (.opening count openTag :: (inner ++ .closing source :: ts)) := by
  intro before behind i j hspan
  have hrow : before ++ (.opening count openTag :: (inner ++ .closing source :: ts) ++ behind) =
      before ++ .opening count openTag :: (inner ++ .closing source :: (ts ++ behind)) := by simp
  rw [spans, hlen, List.mem_cons, List.mem_append] at hspan
  rw [hrow]
  rcases hspan with hspan | hspan | hspan
  · cases hspan
    exact hrising.closes_first hlevel source (ts ++ behind)
  · have hfront : (before ++ [Token.opening count openTag]).length = before.length + 1 := List.length_append
    have hin := hinner (before ++ [.opening count openTag]) (.closing source :: (ts ++ behind)) i j (hfront ▸ hspan)
    rwa [List.append_assoc] at hin
  · have hfront : (before ++ Token.opening count openTag :: (inner ++ [.closing source])).length =
        before.length + 1 + inner.length + 1 := by
      simp only [List.length_append, List.length_cons, List.length_nil]
      omega
    have hrest := h (before ++ .opening count openTag :: (inner ++ [.closing source])) behind i j (hfront ▸ hspan)
    simpa using hrest

namespace Reads

variable {outer : Bool} {ns ns' : List Node} {ts ts' : List Token}

theorem partnered (h : Reads outer ns ts) : Partnered ns ts := by
  induction h with
  | nil =>
    intro before behind i j hspan
    rw [spans] at hspan
    cases hspan
  | text s h ih => exact ih.cons s (.text s)
  | block count openTag source hinner h ihInner ih =>
    obtain ⟨hrising, hlevel⟩ := hinner.balanced rfl
    exact ihInner.block ih hinner.length_parts hrising hlevel count openTag source
  | closing source h ih => exact ih.cons source (.closing source)
  | opening count source hrising h ih => exact ih.cons source (.opening count source)

end Reads

/-! ## Places -/

/-- What stands in a row that has one item in front of some others, and one between these and the rest. -/
theorem getElem?_row {α : Type} {x y v : α} {xs ys : List α} {k : Nat} :
    (x :: (xs ++ y :: ys))[k]? = some v ↔
      (k = 0 ∧ x = v) ∨ (∃ m, k = 1 + m ∧ xs[m]? = some v) ∨ (k = 1 + xs.length ∧ y = v) ∨
        ∃ m, k = 1 + xs.length + 1 + m ∧ ys[m]? = some v := by
  constructor
  · intro h
    cases k with
    | zero => exact .inl ⟨rfl, Option.some.inj h⟩
    | succ k =>
      rw [List.getElem?_cons_succ] at h
      rcases Nat.lt_or_ge k xs.length with hlt | hle
      · rw [List.getElem?_append_left hlt] at h
        exact .inr (.inl ⟨k, Nat.add_comm k 1, h⟩)
      · obtain ⟨m, rfl⟩ := Nat.exists_eq_add_of_le hle
        rw [List.getElem?_append_right hle, Nat.add_sub_cancel_left] at h
        cases m with
        | zero => exact .inr (.inr (.inl ⟨by omega, Option.some.inj h⟩))
        | succ m => exact .inr (.inr (.inr ⟨m, by omega, h⟩))
  · rintro (⟨rfl, rfl⟩ | ⟨m, rfl, h⟩ | ⟨rfl, rfl⟩ | ⟨m, rfl, h⟩)
    · rfl
    · rw [Nat.add_comm, List.getElem?_cons_succ, List.getElem?_append_left (List.getElem?_eq_some_iff.1 h).1]
      exact h
    · rw [Nat.add_comm, List.getElem?_cons_succ, List.getElem?_append_right le_rfl, Nat.sub_self]
      rfl
    · have hplace : 1 + xs.length + 1 + m = xs.length + (m + 1) + 1 := by omega
      rw [hplace, List.getElem?_cons_succ, List.getElem?_append_right (Nat.le_add_right _ _), Nat.add_sub_cancel_left]
      exact h

/-- A part that is the begin or the end of a block is that of one of some spans. -/
def Part.Ends (l : List (Nat × Nat)) (k : Nat) : Part → Prop
  | .text _ => True
  | .opens _ _ => ∃ j, (k, j) ∈ l
  | .closes => ∃ i, (i, k) ∈ l

theorem Part.Ends.mono {l l' : List (Nat × Nat)} {k : Nat} {p : Part} (h : p.Ends l k) (hsub : l ⊆ l') :
    p.Ends l' k := by
  cases p with
  | text s => exact trivial
  | opens count openTag => exact h.imp fun j hj => hsub hj
  | closes => exact h.imp fun i hi => hsub hi

theorem ends_of_parts {ns : List Node} {start k : Nat} {p : Part} (h : (parts ns)[k]? = some p) :
    p.Ends (spans start ns) (start + k) := by
  induction ns using parts.induct generalizing start k with
  | case1 =>
    rw [parts] at h
    cases h
  | case2 s rest ih =>
    rw [parts] at h
    rw [spans]
    cases k with
    | zero =>
      cases h
      exact trivial
    | succ k =>
      have hrest := @ih (start + 1) k h
      rwa [Nat.add_assoc, Nat.add_comm 1] at hrest
  | case3 count openTag children rest ihChildren ihRest =>
    rw [parts, getElem?_row] at h
    rw [spans]
    rcases h with ⟨rfl, rfl⟩ | ⟨m, rfl, hm⟩ | ⟨rfl, rfl⟩ | ⟨m, rfl, hm⟩
    · exact ⟨_, List.mem_cons_self⟩
    · have hin := @ihChildren (start + 1) m hm
      rw [Nat.add_assoc] at hin
      refine hin.mono fun span hspan => ?_
      exact List.mem_cons_of_mem _ (List.mem_append_left _ hspan)
    · exact ⟨start, by rw [← Nat.add_assoc]; exact List.mem_cons_self⟩
    · have hin := @ihRest (start + 1 + (parts children).length + 1) m hm
      have hplace : start + (1 + (parts children).length + 1 + m) = start + 1 + (parts children).length + 1 + m := by
        omega
      rw [hplace]
      refine hin.mono fun span hspan => ?_
      exact List.mem_cons_of_mem _ (List.mem_append_right _ hspan)

/-- A span ends at the end of a block. -/
theorem closes_of_span {ns : List Node} {start i j : Nat} (h : (i, j) ∈ spans start ns) :
    ∃ k, j = start + k ∧ (parts ns)[k]? = some .closes := by
  induction ns using parts.induct generalizing start with
  | case1 =>
    rw [spans] at h
    cases h
  | case2 s rest ih =>
    rw [spans] at h
    obtain ⟨k, rfl, hk⟩ := ih h
    exact ⟨k + 1, by omega, by rw [parts]; exact hk⟩
  | case3 count openTag children rest ihChildren ihRest =>
    rw [spans, List.mem_cons, List.mem_append] at h
    simp only [parts, getElem?_row]
    rcases h with h | h | h
    · cases h
      exact ⟨1 + (parts children).length, by omega, .inr (.inr (.inl ⟨rfl, trivial⟩))⟩
    · obtain ⟨k, rfl, hk⟩ := ihChildren h
      exact ⟨1 + k, by omega, .inr (.inl ⟨k, rfl, hk⟩)⟩
    · obtain ⟨k, rfl, hk⟩ := ihRest h
      exact ⟨1 + (parts children).length + 1 + k, by omega, .inr (.inr (.inr ⟨k, rfl, hk⟩))⟩

/-- Wherever the row stands in front of some others, an opening marker in it that is read as a text meets no close. -/
def Unmet (ns : List Node) (ts behind : List Token) : Prop :=
  ∀ k count source s, ts[k]? = some (.opening count source) → (parts ns)[k]? = some (.text s) →
    ∀ before j, ¬ Meets (before ++ (ts ++ behind)) (before.length + k) j

theorem Unmet.cons {ns : List Node} {ts behind : List Token} (h : Unmet ns ts behind) (s : Text) {t : Token}
    (ht : ∀ count source, t = .opening count source →
      ∀ before j, ¬ Meets (before ++ (t :: (ts ++ behind))) before.length j) :
    Unmet (.text s :: ns) (t :: ts) behind := by
  intro k count source u hopening htext before j
  rw [parts] at htext
  cases k with
  | zero => exact ht count source (Option.some.inj hopening) before j
  | succ k =>
    have hlen : (before ++ [t]).length + k = before.length + (k + 1) := by simp; omega
    have hrest := h k count source u hopening htext (before ++ [t]) j
    rwa [List.append_assoc, hlen] at hrest

theorem Unmet.block {children ns : List Node} {inner ts behind : List Token} {count openTag source : Text}
    (hinner : Unmet children inner (.closing source :: (ts ++ behind))) (h : Unmet ns ts behind)
    (hlen : (parts children).length = inner.length) :
    Unmet (.block count openTag children :: ns) (.opening count openTag :: (inner ++ .closing source :: ts))
      behind := by
  intro k count' source' s hopening htext before j
  have hrow : before ++ (.opening count openTag :: (inner ++ .closing source :: ts) ++ behind) =
      before ++ .opening count openTag :: (inner ++ .closing source :: (ts ++ behind)) := by simp
  rw [parts] at htext
  rw [hrow]
  rcases getElem?_row.1 hopening with ⟨rfl, -⟩ | ⟨m, rfl, hm⟩ | ⟨-, hclose⟩ | ⟨m, rfl, hm⟩
  · cases htext
  · rw [Nat.add_comm, List.getElem?_cons_succ, List.getElem?_append_left
      (hlen ▸ (List.getElem?_eq_some_iff.1 hm).1)] at htext
    have hin := hinner m count' source' s hm htext (before ++ [.opening count openTag]) j
    rw [List.append_assoc, List.length_append, Nat.add_assoc] at hin
    exact hin
  · cases hclose
  · rcases getElem?_row.1 htext with ⟨hzero, -⟩ | ⟨m', hplace, hm'⟩ | ⟨-, hclose⟩ | ⟨m', hplace, hm'⟩
    · omega
    · have hlt := (List.getElem?_eq_some_iff.1 hm').1
      omega
    · cases hclose
    · obtain rfl : m = m' := by omega
      have hfront : (before ++ Token.opening count openTag :: (inner ++ [.closing source])).length + m =
          before.length + (1 + inner.length + 1 + m) := by
        simp only [List.length_append, List.length_cons, List.length_nil]
        omega
      have hrest := h m count' source' s hm hm' (before ++ .opening count openTag :: (inner ++ [.closing source])) j
      rw [hfront] at hrest
      simpa using hrest

theorem Reads.unmet {outer : Bool} {ns : List Node} {ts : List Token} (h : Reads outer ns ts) {behind : List Token}
    (hbehind : outer = true → behind = []) : Unmet ns ts behind := by
  induction h generalizing behind with
  | nil =>
    intro k count source s hopening
    cases hopening
  | text s h ih => exact (ih hbehind).cons s nofun
  | block count openTag source hinner h ihInner ih => exact (ihInner nofun).block (ih hbehind) hinner.length_parts
  | closing source h ih => exact (ih hbehind).cons source nofun
  | opening count source hrising h ih =>
    refine (ih hbehind).cons source fun _ _ _ before j => ?_
    rw [hbehind rfl, List.append_nil]
    exact hrising.not_meets j

/-! ## Matching -/

/-- What has been matched: `done` are the tokens so far, `level` and `stack` what is held of them. -/
def Held (level : List Node) : List OpenBlock → List Token → Prop
  | [], done => ∀ ns ts, Reads true ns ts → Reads true (level.reverse ++ ns) (done ++ ts)
  | b :: outer, done => ∃ front inner, done = front ++ .opening b.count b.openTag :: inner ∧
      Held b.before outer front ∧ Reads false level.reverse inner

theorem Held.append {level ns : List Node} {stack : List OpenBlock} {done ts : List Token} (h : Held level stack done)
    (hrow : Reads false ns ts) : Held (ns.reverse ++ level) stack (done ++ ts) := by
  cases stack with
  | nil =>
    intro ns' ts' hrest
    have hmore := h _ _ (hrow.append rfl hrest)
    simpa using hmore
  | cons b outer =>
    obtain ⟨front, inner, rfl, hbefore, hinner⟩ := h
    refine ⟨front, inner ++ ts, by simp, hbefore, ?_⟩
    rw [List.reverse_append, List.reverse_reverse]
    exact hinner.append rfl hrow

/-- Giving up the open blocks makes texts of their markers. -/
theorem reads_abandon {level before : List Node} {stack : List OpenBlock} {done ts : List Token}
    (hbefore : Held before stack done) (h : Reads true level.reverse ts) (hrising : Rising ts) :
    Reads true (abandon (level ++ before) stack) (done ++ ts) := by
  -- the innermost block is given up first, so what is read behind the others grows from the end
  induction stack generalizing level before done ts with
  | nil =>
    rw [abandon, List.reverse_append]
    exact hbefore _ _ h
  | cons b outer ih =>
    obtain ⟨front, inner, rfl, hfront, hinner⟩ := hbefore
    have hall : Rising (inner ++ ts) := (hinner.balanced rfl).1.append hrising
    have hlevel : Reads true (level ++ before ++ [Node.text b.openTag]).reverse
        (.opening b.count b.openTag :: (inner ++ ts)) := by
      simp only [List.reverse_append, List.reverse_singleton, List.singleton_append]
      exact .opening b.count b.openTag hall (hinner.append rfl h)
    have hmore := ih hfront hlevel hall.opening
    rw [abandon]
    simpa using hmore

theorem reads_matchTokens {level : List Node} {stack : List OpenBlock} {done : List Token} (h : Held level stack done)
    (rest : List Token) : Reads true (matchTokens level stack rest) (done ++ rest) := by
  induction rest generalizing level stack done with
  | nil =>
    have hend : Reads true ([] : List Node).reverse [] := .nil
    exact reads_abandon h hend Rising.nil
  | cons t rest ih =>
    have hdone : done ++ t :: rest = (done ++ [t]) ++ rest := by simp
    rw [hdone]
    cases t with
    | text s => exact ih (h.append (.text s .nil))
    | opening count source => exact ih ⟨done, [], rfl, h, .nil⟩
    | closing source =>
      cases stack with
      | nil =>
        -- no block is open, so the close is a text of the outermost level
        refine ih fun ns ts hrest => ?_
        have hmore := h _ _ (.closing source hrest)
        simpa using hmore
      | cons b outer =>
        obtain ⟨front, inner, rfl, hfront, hinner⟩ := h
        have hblock := hfront.append (.block b.count b.openTag source hinner .nil)
        rw [matchTokens]
        refine ih ?_
        simpa using hblock

theorem reads_parse (s : Text) : Reads true (parse s) (tokens s) :=
  @reads_matchTokens [] [] [] (fun _ _ h => h) (tokens s)

section

variable {s : Text} {i j : Nat}

theorem exists_part {t : Token} (h : (tokens s)[i]? = some t) : ∃ p, (parts (parse s))[i]? = some p ∧ Stands p t := by
  obtain ⟨hi, rfl⟩ := List.getElem?_eq_some_iff.1 h
  have hstands := (reads_parse s).stands
  have hi' : i < (parts (parse s)).length := hstands.length_eq ▸ hi
  exact ⟨_, List.getElem?_eq_getElem hi', hstands.get hi' hi⟩

theorem closes_of_mem_spans (h : (i, j) ∈ spans 0 (parse s)) : Closes (tokens s) i j := by
  have hfirst := (reads_parse s).partnered [] [] i j h
  rwa [List.append_nil] at hfirst

theorem opening_cases {count source : Text} (h : (tokens s)[i]? = some (.opening count source)) :
    ((parts (parse s))[i]? = some (.opens count source) ∧ ∃ j, (i, j) ∈ spans 0 (parse s)) ∨
      ((parts (parse s))[i]? = some (.text source) ∧ ¬ ∃ j, Meets (tokens s) i j) := by
  obtain ⟨p, hp, hstands⟩ := exists_part h
  cases hstands with
  | text =>
    have hunmet := (reads_parse s).unmet (fun _ => rfl) i count source source h hp []
    simp only [List.append_nil, List.nil_append, List.length_nil, Nat.zero_add] at hunmet
    exact .inr ⟨hp, not_exists.2 hunmet⟩
  | opens =>
    have hends := @ends_of_parts _ 0 _ _ hp
    rw [Nat.zero_add] at hends
    exact .inl ⟨hp, hends⟩

theorem mem_spans_iff : (i, j) ∈ spans 0 (parse s) ↔ Closes (tokens s) i j := by
  refine ⟨closes_of_mem_spans, fun h => ?_⟩
  obtain ⟨count, source, hopening⟩ := h.1.opening
  rcases opening_cases hopening with ⟨-, j', hspan⟩ | ⟨-, hunmet⟩
  · rwa [h.unique (closes_of_mem_spans hspan)]
  · exact absurd ⟨j, h.1⟩ hunmet

/-- A close is read as the end of a block if it is the partner of an opening marker, and else as a text. -/
theorem closing_cases {source : Text} (h : (tokens s)[j]? = some (.closing source)) :
    ((parts (parse s))[j]? = some .closes ∧ ∃ i, Closes (tokens s) i j) ∨
      ((parts (parse s))[j]? = some (.text source) ∧ ¬ ∃ i, Closes (tokens s) i j) := by
  obtain ⟨p, hp, hstands⟩ := exists_part h
  cases hstands with
  | text =>
    refine .inr ⟨hp, fun ⟨i, hpartner⟩ => ?_⟩
    obtain ⟨k, hk, hcloses⟩ := closes_of_span (mem_spans_iff.2 hpartner)
    rw [Nat.zero_add] at hk
    rw [← hk, hp] at hcloses
    cases hcloses
  | closes =>
    have hends := @ends_of_parts _ 0 _ _ hp
    rw [Nat.zero_add] at hends
    obtain ⟨i, hspan⟩ := hends
    exact .inl ⟨hp, i, mem_spans_iff.1 hspan⟩

end

theorem iff_and_iff_of_cases {a b p : Prop} (h : (a ∧ p) ∨ (b ∧ ¬ p)) (hne : a → ¬ b) : (a ↔ p) ∧ (b ↔ ¬ p) := by
  tauto

/-- The tokens are the markers from left to right and the stretches between them, which make up the text and in which no
marker is written. Read in order, the forest gives the tokens, each in its place. The blocks are the opening markers
that meet a close, each with the first one that it meets; every other marker is a text. -/
theorem parse_matches (s : Text) :
    (Cut s (tokens s) ∧ (tokens s).flatMap Token.source = s ∧
      ∀ u, .text u ∈ tokens s → u ≠ [] ∧ ∀ m source, Written m source → ¬ source <:+: u) ∧
    List.Forall₂ Stands (parts (parse s)) (tokens s) ∧
    (∀ i j, (i, j) ∈ spans 0 (parse s) ↔ Closes (tokens s) i j) ∧
    (∀ i count source, (tokens s)[i]? = some (.opening count source) →
      ((parts (parse s))[i]? = some (.opens count source) ↔ ∃ j, Meets (tokens s) i j) ∧
      ((parts (parse s))[i]? = some (.text source) ↔ ¬ ∃ j, Meets (tokens s) i j)) ∧
    ∀ j source, (tokens s)[j]? = some (.closing source) →
      ((parts (parse s))[j]? = some .closes ↔ ∃ i, Closes (tokens s) i j) ∧
      ((parts (parse s))[j]? = some (.text source) ↔ ¬ ∃ i, Closes (tokens s) i j) := by
  refine ⟨⟨cut_tokens s, source_tokens s, fun u hu => (cut_tokens s).stretch_plain hu⟩, (reads_parse s).stands,
    fun i j => mem_spans_iff, fun i count source hopening => ?_, fun j source hclosing => ?_⟩
  · refine iff_and_iff_of_cases ?_ fun hopens htext => ?_
    · refine (opening_cases hopening).imp_left fun ⟨hp, j, hspan⟩ => ?_
      exact ⟨hp, j, (closes_of_mem_spans hspan).1⟩
    · rw [hopens] at htext
      cases htext
  · refine iff_and_iff_of_cases (closing_cases hclosing) fun hcloses htext => ?_
    rw [hcloses] at htext
    cases htext

/-- The first of two opening markers in front of one close is a text. -/
example : spans 0 (parse "a\x7b\x7brepeat 2\x7d\x7d\x7b\x7brepeat 3\x7d\x7db\x7b\x7b/repeat\x7d\x7d".toList) =
    [(2, 4)] := by
  cbv

end Sitewright.Repeat
