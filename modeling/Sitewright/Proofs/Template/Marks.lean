import Sitewright.Proofs.Template.Forest
/-!
# The three recognisers

Markers of blocks, references and placeholders of variables all stand between two pairs of braces. Which
of the three a body belongs to is settled by how it begins: a count behind `repeat`, the namespace of
components, or a name in capitals.

Main statements: each recogniser sees its own atoms and no others (`sees_marker`, `sees_reference`,
`sees_placeholder`).
-/
set_option autoImplicit false

namespace Sitewright.Template

theorem length_braces (body : Text) : (braces body).length = body.length + 4 := by
  simp [braces]

theorem isBlank_of_isCapital {c : Char} (h : Variable.isCapital c = true) : Text.isBlank c = false := by
  simp only [Variable.isCapital, Bool.and_eq_true, decide_eq_true_eq] at h
  simp only [Text.isBlank, CharRanges.has, Text.blankRanges, List.any_cons, List.any_nil, Bool.or_false,
    Bool.or_eq_false_iff, Bool.and_eq_false_iff, decide_eq_false_iff_not]
  omega

/-! ## Markers -/

def Atom.marker? : Atom → Option Repeat.Marker
  | .opening count => some (.opening count.text)
  | .closing => some .closing
  | _ => none

theorem Count.plain_text (c : Count) : ∀ x ∈ c.text, Text.isBlank x = false ∧ x ≠ '\x7d' := by
  intro x hx
  refine ⟨?_, (c.braceFree_text x hx).2⟩
  rcases List.mem_append.1 hx with hx | hx
  · cases hsign : c.sign <;> rw [hsign] at hx
    · cases hx
    · rw [List.mem_singleton.1 hx]
      decide
    · rw [List.mem_singleton.1 hx]
      decide
  · obtain ⟨d, _, rfl⟩ := List.mem_map.1 hx
    exact (digitChar_spec d).2.1

theorem Count.text_ne_nil (c : Count) : c.text ≠ [] := by
  intro h
  have hdigits := (List.append_eq_nil_iff.1 h).2
  exact c.nonempty (List.map_eq_nil_iff.1 hdigits)

theorem takeWhile_blank {blanks s : Text} {c : Char} (hblanks : ∀ x ∈ blanks, Text.isBlank x = true)
    (hc : Text.isBlank c = false) : (blanks ++ c :: s).takeWhile Text.isBlank = blanks := by
  rw [List.takeWhile_append_of_pos hblanks, List.takeWhile_cons, hc]
  simp

theorem endOf?_of_blank {blanks : Text} (h : ∀ c ∈ blanks, Text.isBlank c = true) (rest : Text) :
    Repeat.endOf? (blanks ++ '\x7d' :: '\x7d' :: rest) = some (blanks.length + 2) := by
  unfold Repeat.endOf?
  simp only [takeWhile_blank h (by decide : Text.isBlank '\x7d' = false), List.drop_left]

theorem endOf?_braces (rest : Text) : Repeat.endOf? ('\x7d' :: '\x7d' :: rest) = some 2 :=
  endOf?_of_blank (fun _ hc => absurd hc List.not_mem_nil) rest

theorem endOf?_none {c : Char} {s : Text} (hblank : Text.isBlank c = false) (hc : c ≠ '\x7d') :
    Repeat.endOf? (c :: s) = none := by
  unfold Repeat.endOf?
  rw [List.takeWhile_cons, hblank]
  simp only [Bool.false_eq_true, if_false, List.length_nil, List.drop_zero]
  split
  · rename_i heq
    exact absurd (List.cons.inj heq).1 hc
  · rfl

/-- A count without closing braces is found as a whole in front of the end of a marker. -/
theorem countFrom_append {u trail : Text} (hne : u ≠ []) (hu : ∀ x ∈ u, Text.isBlank x = false ∧ x ≠ '\x7d')
    (htrail : ∀ x ∈ trail, Text.isBlank x = true) (count rest : Text) :
    Repeat.countFrom count (u ++ (trail ++ '\x7d' :: '\x7d' :: rest)) =
      some (count.reverse ++ u, count.length + u.length + trail.length + 2) := by
  induction u generalizing count with
  | nil => exact absurd rfl hne
  | cons c u ih =>
    have hc := hu c List.mem_cons_self
    rw [List.cons_append, Repeat.countFrom, if_neg (by rw [hc.1]; decide)]
    cases u with
    | nil =>
      rw [List.nil_append, endOf?_of_blank htrail]
      simp only [List.reverse_cons, List.length_singleton, Nat.add_assoc]
    | cons x u =>
      have hx := hu x (List.mem_cons_of_mem c List.mem_cons_self)
      have hrest := ih (by simp) (fun y hy => hu y (List.mem_cons_of_mem c hy)) (c :: count)
      rw [List.cons_append] at hrest ⊢
      rw [endOf?_none hx.1 hx.2]
      simp only
      rw [hrest, List.reverse_cons, List.append_assoc, List.length_cons, List.length_cons]
      simp only [List.singleton_append, List.length_cons, Option.some.injEq, Prod.mk.injEq, true_and]
      omega

theorem braced_marker : Braced Repeat.marker := by
  intro s m h
  unfold Repeat.marker at h
  split at h
  · exact ⟨_, rfl⟩
  · cases h

theorem marker_of_opening (count : Count) (rest : Text) :
    Repeat.marker (braces ("repeat ".toList ++ count.text) ++ rest) =
      some (.opening count.text, (braces ("repeat ".toList ++ count.text)).length) := by
  have hsource : braces ("repeat ".toList ++ count.text) ++ rest =
      '\x7b' :: '\x7b' :: ("repeat".toList ++ ' ' :: (count.text ++ '\x7d' :: '\x7d' :: rest)) := by
    simp [braces]
  obtain ⟨c, s, hcount⟩ := List.exists_cons_of_ne_nil count.text_ne_nil
  have hblank : Text.isBlank c = false := (count.plain_text c (hcount ▸ List.mem_cons_self)).1
  have hgap : (' ' :: (count.text ++ '\x7d' :: '\x7d' :: rest)).takeWhile Text.isBlank = [' '] := by
    rw [hcount, List.takeWhile_cons, if_pos (by decide), List.cons_append, List.takeWhile_cons, hblank]
    rfl
  have hfront : ("repeat".toList ++ ' ' :: (count.text ++ '\x7d' :: '\x7d' :: rest)).takeWhile Text.isBlank
      = [] := rfl
  rw [hsource, Repeat.marker]
  simp only [hfront, List.length_nil, List.drop_zero, Text.after?_append, hgap, List.length_singleton,
    List.drop_succ_cons]
  have hfound := @countFrom_append count.text [] count.text_ne_nil count.plain_text nofun [] rest
  rw [List.nil_append] at hfound
  rw [hfound, length_braces]
  simp
  omega

theorem marker_of_closing (rest : Text) : Repeat.marker (braces "/repeat".toList ++ rest) =
    some (.closing, (braces "/repeat".toList).length) := by
  have hsource : braces "/repeat".toList ++ rest =
      '\x7b' :: '\x7b' :: ("/repeat".toList ++ '\x7d' :: '\x7d' :: rest) := rfl
  have hfront : ("/repeat".toList ++ '\x7d' :: '\x7d' :: rest).takeWhile Text.isBlank = [] := rfl
  have hafter : Text.after? "repeat".toList ("/repeat".toList ++ '\x7d' :: '\x7d' :: rest) = none := rfl
  rw [hsource, Repeat.marker]
  simp only [hfront, List.length_nil, List.drop_zero, hafter, Text.after?_append]
  rw [endOf?_braces]
  rfl

theorem marker_none {c : Char} {body rest : Text} (hblank : Text.isBlank c = false) (hr : c ≠ 'r')
    (hslash : c ≠ '/') : Repeat.marker (braces (c :: body) ++ rest) = none := by
  have hsource : braces (c :: body) ++ rest =
      '\x7b' :: '\x7b' :: c :: (body ++ ['\x7d', '\x7d'] ++ rest) := rfl
  have hfront : (c :: (body ++ ['\x7d', '\x7d'] ++ rest)).takeWhile Text.isBlank = [] := by
    rw [List.takeWhile_cons, hblank]
    rfl
  have hopen : Text.after? "repeat".toList (c :: (body ++ ['\x7d', '\x7d'] ++ rest)) = none := by
    show Text.after? ('r' :: "epeat".toList) _ = none
    rw [Text.after?, if_neg (Ne.symm hr)]
  have hclose : Text.after? "/repeat".toList (c :: (body ++ ['\x7d', '\x7d'] ++ rest)) = none := by
    show Text.after? ('/' :: "repeat".toList) _ = none
    rw [Text.after?, if_neg (Ne.symm hslash)]
  rw [hsource, Repeat.marker]
  simp only [hfront, List.length_nil, List.drop_zero, hopen, hclose]

/-- A recogniser of markers sees the two markers of each block. -/
theorem sees_marker : Sees Repeat.marker Atom.marker? where
  braced := braced_marker
  literal _ := rfl
  mark a m h rest := by
    cases a with
    | opening count =>
      cases h
      exact marker_of_opening count rest
    | closing =>
      cases h
      exact marker_of_closing rest
    | _ => cases h
  other a body hbody hm rest := by
    cases a with
    | literal s => cases hbody
    | opening count => cases hm
    | closing => cases hm
    | component t =>
      cases hbody
      exact marker_none (by decide) (by decide) (by decide)
    | value p =>
      cases hbody
      obtain ⟨c, s, hp, hc⟩ := p.spec.1
      rw [hp]
      exact marker_none (isBlank_of_isCapital hc) (by rintro rfl; exact absurd hc (by decide))
        (by rintro rfl; exact absurd hc (by decide))

/-! ## References -/

def Atom.token? : Atom → Option Text
  | .component t => some t.token
  | _ => none

theorem braced_reference (space : Text) : Braced (Component.reference space) := by
  intro s m h
  unfold Component.reference at h
  split at h
  · exact ⟨_, rfl⟩
  · cases h

theorem reference_of_path (space : Text) {path : Text} (hne : path ≠ []) (hclosed : '\x7d' ∉ path)
    (rest : Text) : Component.reference space (braces (space ++ '/' :: path) ++ rest) =
      some (space ++ '/' :: path, (braces (space ++ '/' :: path)).length) := by
  have hsource : braces (space ++ '/' :: path) ++ rest =
      '\x7b' :: '\x7b' :: ((space ++ ['/']) ++ (path ++ '\x7d' :: '\x7d' :: rest)) := by
    simp [braces]
  have hpath : ∀ c ∈ path, decide (c ≠ '\x7d') = true := fun c hc => decide_eq_true (ne_of_mem_of_not_mem hc hclosed)
  have htake : (path ++ '\x7d' :: '\x7d' :: rest).takeWhile (fun c => decide (c ≠ '\x7d')) = path := by
    rw [List.takeWhile_append_of_pos hpath, List.takeWhile_cons, if_neg (by decide), List.append_nil]
  have hempty : path.isEmpty = false := List.isEmpty_eq_false_iff.2 hne
  rw [hsource, Component.reference, Text.after?_append, length_braces]
  simp only [htake, List.drop_left, hempty]
  rfl

theorem reference_none {c : Char} {body rest : Text} (hc : c ≠ 'c') :
    Component.reference commonSpace (braces (c :: body) ++ rest) = none := by
  have : braces (c :: body) ++ rest = '\x7b' :: '\x7b' :: c :: (body ++ ['\x7d', '\x7d'] ++ rest) := rfl
  rw [this, Component.reference]
  have hafter : Text.after? (commonSpace ++ ['/']) (c :: (body ++ ['\x7d', '\x7d'] ++ rest)) = none := by
    show Text.after? ('c' :: "ommon/".toList) _ = none
    rw [Text.after?, if_neg (Ne.symm hc)]
  rw [hafter]

/-- A recogniser of references sees the references. -/
theorem sees_reference : Sees (Component.reference commonSpace) Atom.token? where
  braced := braced_reference _
  literal _ := rfl
  mark a m h rest := by
    cases a with
    | component t =>
      cases h
      exact reference_of_path _ t.nonempty (fun hbrace => (t.braceFree _ hbrace).2 rfl) rest
    | _ => cases h
  other a body hbody hm rest := by
    cases a with
    | literal s => cases hbody
    | opening count =>
      cases hbody
      exact reference_none (by decide)
    | closing =>
      cases hbody
      exact reference_none (by decide)
    | component t => cases hm
    | value p =>
      cases hbody
      obtain ⟨c, s, hp, hc⟩ := p.spec.1
      rw [hp]
      refine reference_none ?_
      rintro rfl
      exact absurd hc (by decide)

/-! ## Variables -/

def Atom.path? : Atom → Option Text
  | .value p => some p.path
  | _ => none

theorem braced_placeholder : Braced Variable.placeholder := by
  intro s m h
  unfold Variable.placeholder at h
  split at h
  · exact ⟨_, rfl⟩
  · cases h

theorem placeholder_of_path (p : Address) (rest : Text) :
    Variable.placeholder (braces p.path ++ rest) = some (p.path, (braces p.path).length) := by
  have hsource : braces p.path ++ rest = '\x7b' :: '\x7b' :: (p.path ++ '\x7d' :: '\x7d' :: rest) := by
    simp [braces]
  have htake : (p.path ++ '\x7d' :: '\x7d' :: rest).takeWhile (fun c => c = '.' || Variable.isWord c) =
      p.path := by
    rw [List.takeWhile_append_of_pos p.spec.2]
    have hend : (decide ('\x7d' = '.') || Variable.isWord '\x7d') = false := by decide
    rw [List.takeWhile_cons, if_neg (by rw [hend]; decide), List.append_nil]
  rw [hsource, Variable.placeholder]
  simp only [htake, List.drop_left]
  rw [if_pos p.isPath]
  simp [braces]

/-- A body that goes on, behind letters, digits, bars and dots, with another character is no variable. -/
theorem placeholder_none (front : Text) {body rest : Text} {c : Char}
    (hfront : ∀ x ∈ front, (decide (x = '.') || Variable.isWord x) = true)
    (hc : (decide (c = '.') || Variable.isWord c) = false) (hne : c ≠ '\x7d') :
    Variable.placeholder (braces (front ++ c :: body) ++ rest) = none := by
  have hsource : braces (front ++ c :: body) ++ rest =
      '\x7b' :: '\x7b' :: (front ++ c :: (body ++ '\x7d' :: '\x7d' :: rest)) := by
    simp [braces]
  have htake : (front ++ c :: (body ++ '\x7d' :: '\x7d' :: rest)).takeWhile
      (fun c => c = '.' || Variable.isWord c) = front := by
    rw [List.takeWhile_append_of_pos hfront, List.takeWhile_cons, if_neg (by rw [hc]; decide),
      List.append_nil]
  rw [hsource, Variable.placeholder]
  simp only [htake, List.drop_left]
  split
  · rename_i heq
    exact absurd (List.cons.inj heq).1 hne
  · rfl

/-- A recogniser of variables sees the variables. -/
theorem sees_placeholder : Sees Variable.placeholder Atom.path? where
  braced := braced_placeholder
  literal _ := rfl
  mark a m h rest := by
    cases a <;> cases h
    exact placeholder_of_path _ rest
  other a body hbody hm rest := by
    cases a with
    | literal s => cases hbody
    | opening count =>
      cases hbody
      exact placeholder_none "repeat".toList (List.all_eq_true.1 (by decide)) (by decide) (by decide)
    | closing =>
      cases hbody
      exact placeholder_none [] (List.all_eq_true.1 rfl) (by decide) (by decide)
    | component t =>
      cases hbody
      exact placeholder_none commonSpace (List.all_eq_true.1 (by decide)) (by decide) (by decide)
    | value p => cases hm

end Sitewright.Template
