import Sitewright.Proofs.Template.Marks
import Sitewright.Proofs.Text.Integer
/-!
# Unrolling blocks

The repeat pass cuts a text into tokens, matches them like brackets and writes the forest that comes out.
Its result can be had in one go over the pieces of the scan: `emit` keeps the text written on the innermost
level and a frame for each block that is still open. Over the pieces of a printed template every block is
closed, and what is written is the printed form of the template with its blocks unrolled.

Main statement: the repeat pass turns a printed template into the printed form of its unrolling
(`expand_print`).
-/
set_option autoImplicit false

namespace Sitewright.Repeat

/-! ## Writing nodes -/

def several (n : Nat) (s : Text) : Text := (List.replicate n s).flatten

theorem several_succ (n : Nat) (s : Text) : several (n + 1) s = s ++ several n s := rfl

theorem several_nil (n : Nat) : several n [] = [] := by
  induction n with
  | zero => rfl
  | succ n ih => rw [several_succ, ih, List.append_nil]

theorem pushTimes_eq (s : Text) (n : Nat) (out : Text) :
    pushTimes s n out = (several n s).reverse ++ out := by
  induction n generalizing out with
  | zero => rfl
  | succ n ih =>
    rw [pushTimes, ih, several_succ, List.reverse_append, List.reverseAux_eq, List.append_assoc]

theorem write_nil : write [] = [] := by
  rw [write, writeOnto, List.reverse_nil]

theorem writeOnto_eq (nodes : List Node) (out : Text) :
    writeOnto out nodes = (write nodes).reverse ++ out := by
  induction nodes generalizing out with
  | nil => rw [write_nil, writeOnto, List.reverse_nil, List.nil_append]
  | cons node rest ih =>
    cases node with
    | text s =>
      rw [write, writeOnto, writeOnto, ih, ih (s.reverseAux [])]
      simp [List.reverseAux_eq]
    | block count openTag children =>
      rw [write, writeOnto, writeOnto, ih, List.reverse_reverse]
      symm
      rw [ih]
      split
      · simp
      · simp [pushTimes_eq]

theorem write_text (s : Text) (rest : List Node) : write (.text s :: rest) = s ++ write rest := by
  rw [write, writeOnto, writeOnto_eq]
  simp [List.reverseAux_eq]

theorem write_block (count openTag : Text) (children rest : List Node) :
    write (.block count openTag children :: rest) =
      several (repetitions count) (write children) ++ write rest := by
  have hinner : (writeOnto [] children).reverse = write children := rfl
  rw [write, writeOnto, writeOnto_eq, hinner]
  split
  · rename_i hempty
    rw [List.isEmpty_iff.1 hempty, several_nil]
    simp
  · simp [pushTimes_eq]

theorem write_append (a b : List Node) : write (a ++ b) = write a ++ write b := by
  induction a with
  | nil => rw [write_nil, List.nil_append, List.nil_append]
  | cons node rest ih =>
    cases node with
    | text s => rw [List.cons_append, write_text, write_text, ih, List.append_assoc]
    | block count openTag children =>
      rw [List.cons_append, write_block, write_block, ih, List.append_assoc]

theorem write_reverse_cons (node : Node) (level : List Node) :
    write (node :: level).reverse = write level.reverse ++ write [node] := by
  rw [List.reverse_cons, write_append]

/-! ## Writing in one go -/

/-- A block that is open: its count, its marker, and the text that stands before it on its level. -/
structure Frame where
  count : Text
  openTag : Text
  before : Text

def OpenBlock.frame (b : OpenBlock) : Frame := ⟨b.count, b.openTag, write b.before.reverse⟩

/-- The text where no more markers come: the markers of the open blocks stay as they are. -/
def giveUp (level : Text) : List Frame → Text
  | [] => level
  | f :: outer => giveUp (f.before ++ f.openTag ++ level) outer

/-- The text of some pieces behind what is written already: `level` on the innermost level, and a frame for
each block open around it. -/
def emit (level : Text) (stack : List Frame) : List (Scan.Piece Marker) → Text
  | [] => giveUp level stack
  | .plain c :: rest => emit (level ++ [c]) stack rest
  | .mark (.opening count) source :: rest => emit [] (⟨count, source, level⟩ :: stack) rest
  | .mark .closing source :: rest =>
    match stack with
    | [] => emit (level ++ source) [] rest
    | f :: outer => emit (f.before ++ several (repetitions f.count) level) outer rest

theorem write_abandon (level : List Node) (stack : List OpenBlock) :
    write (abandon level stack) = giveUp (write level.reverse) (stack.map OpenBlock.frame) := by
  induction stack generalizing level with
  | nil => rfl
  | cons b outer ih =>
    rw [abandon, ih, List.reverse_append, List.reverse_cons, write_append, write_append, write_text]
    simp [giveUp, OpenBlock.frame, write_nil]

theorem gather_eq (stretch : Text) (found : List Token) (pieces : List (Scan.Piece Marker)) :
    gather stretch found pieces = found.reverse ++ gather stretch [] pieces := by
  have hclose : ∀ s found, closeStretch s found = closeStretch s [] ++ found := by
    intro s found
    unfold closeStretch
    split <;> rfl
  induction pieces generalizing stretch found with
  | nil => rw [gather, gather, hclose, List.reverse_append]
  | cons piece rest ih =>
    cases piece with
    | plain c => rw [gather, gather, ih]
    | mark meaning source =>
      cases meaning with
      | opening count =>
        rw [gather, gather, ih, ih [] (_ :: closeStretch stretch []), hclose stretch found]
        simp
      | closing =>
        rw [gather, gather, ih, ih [] (_ :: closeStretch stretch []), hclose stretch found]
        simp

theorem matchTokens_closeStretch (level : List Node) (stack : List OpenBlock) (stretch : Text)
    (rest : List Token) : ∃ level', write level'.reverse = write level.reverse ++ stretch.reverse ∧
      matchTokens level stack ((closeStretch stretch []).reverse ++ rest) =
        matchTokens level' stack rest := by
  unfold closeStretch
  split
  · rename_i hempty
    refine ⟨level, ?_, rfl⟩
    rw [List.isEmpty_iff.1 hempty, List.reverse_nil, List.append_nil]
  · refine ⟨.text stretch.reverse :: level, ?_, rfl⟩
    rw [write_reverse_cons, write_text]
    simp [write_nil]

/-- Matching and writing tokens is writing the pieces in one go. -/
theorem write_matchTokens (level : List Node) (stack : List OpenBlock) (stretch : Text)
    (pieces : List (Scan.Piece Marker)) :
    write (matchTokens level stack (gather stretch [] pieces)) =
      emit (write level.reverse ++ stretch.reverse) (stack.map OpenBlock.frame) pieces := by
  induction pieces generalizing level stack stretch with
  | nil =>
    obtain ⟨level', hlevel, hmatch⟩ := matchTokens_closeStretch level stack stretch []
    rw [List.append_nil] at hmatch
    rw [gather, hmatch, matchTokens, write_abandon, hlevel]
    rfl
  | cons piece rest ih =>
    cases piece with
    | plain c => rw [gather, ih, emit, List.reverse_cons, List.append_assoc]
    | mark meaning source =>
      cases meaning with
      | opening count =>
        obtain ⟨level', hlevel, hmatch⟩ := matchTokens_closeStretch level stack stretch
          (.opening count source :: gather [] [] rest)
        rw [gather, gather_eq, List.reverse_cons, List.append_assoc, List.singleton_append, hmatch,
          matchTokens, ih, emit, List.map_cons, OpenBlock.frame, hlevel, List.reverse_nil, write_nil,
          List.reverse_nil, List.append_nil]
      | closing =>
        obtain ⟨level', hlevel, hmatch⟩ := matchTokens_closeStretch level stack stretch
          (.closing source :: gather [] [] rest)
        rw [gather, gather_eq, List.reverse_cons, List.append_assoc, List.singleton_append, hmatch]
        cases stack with
        | nil =>
          rw [matchTokens, ih, write_reverse_cons, write_text, hlevel]
          simp [emit, write_nil]
        | cons b outer =>
          rw [matchTokens, ih, write_reverse_cons, write_block, hlevel]
          simp [emit, write_nil, OpenBlock.frame]

theorem write_parse (s : Text) : write (parse s) = emit [] [] (Scan.scan marker s) := by
  rw [parse, tokens, write_matchTokens, List.reverse_nil, write_nil, List.reverse_nil, List.append_nil,
    List.map_nil]

theorem emit_map_plain (level s : Text) : emit level [] (s.map .plain) = level ++ s := by
  induction s generalizing level with
  | nil => rw [List.map_nil, emit, giveUp, List.append_nil]
  | cons c s ih => rw [List.map_cons, emit, ih, List.append_assoc, List.singleton_append]

/-- A text in which no two braces follow each other holds no marker. -/
theorem scan_of_not_contains {s : Text} (h : Text.contains ['\x7b', '\x7b'] s = false) :
    Scan.scan marker s = s.map .plain := by
  refine Scan.scan_of_forall_none fun before c rest hs => ?_
  cases hm : marker (c :: rest) with
  | none => rfl
  | some m =>
    exfalso
    obtain ⟨t, ht⟩ := Template.braced_marker _ m hm
    have hcontains : ∀ before : Text, Text.contains ['\x7b', '\x7b'] (before ++ c :: rest) = true := by
      intro before
      induction before with
      | nil =>
        rw [ht]
        rfl
      | cons x before ih => rw [List.cons_append, Text.contains, ih, Bool.or_true]
    rw [hs, hcontains] at h
    cases h

/-- What the repeat pass gives where it gives a text. -/
theorem expand_ok {s out : Text} (h : expand s = .ok out) : out = emit [] [] (Scan.scan marker s) := by
  unfold expand at h
  split at h
  · simp only at h
    cases hm : measure 0 (parse s) with
    | error e =>
      rw [hm] at h
      cases h
    | ok n =>
      rw [hm] at h
      cases h
      exact write_parse s
  · rename_i hnone
    cases h
    rw [scan_of_not_contains (Bool.eq_false_iff.2 hnone), emit_map_plain, List.nil_append]

end Sitewright.Repeat

namespace Sitewright.Template

open Repeat (emit)

/-! ## Counts -/

def magnitude (digits : List (Fin 10)) : Nat := digits.foldl (fun n d => 10 * n + d.val) 0

def Count.value (c : Count) : Int :=
  match c.sign with
  | .minus => -(magnitude c.digits : Int)
  | _ => magnitude c.digits

/-- How often a block is repeated: never where its count is negative. -/
def Count.times (c : Count) : Nat := (max 0 c.value).toNat

theorem isDecimal_digitChar : ∀ d : Fin 10, Integer.isDecimal (digitChar d) = true := by decide

theorem isDecimal_of_mem_digits {digits : List (Fin 10)} :
    ∀ c ∈ digits.map digitChar, Integer.isDecimal c = true :=
  List.forall_mem_map.2 fun d _ => isDecimal_digitChar d

theorem valueOf_digits (digits : List (Fin 10)) : Integer.valueOf (digits.map digitChar) = magnitude digits := by
  have hvalue : ∀ d : Fin 10, (Text.digit? (digitChar d)).getD 0 = d.val := by decide
  simp only [Integer.valueOf, List.foldl_map, hvalue]
  rfl

/-- A count is read as the number that it stands for. -/
theorem read_count (c : Count) : Integer.read c.text = .ok c.value := by
  have hne : c.digits.map digitChar ≠ [] := fun h => c.nonempty (List.map_eq_nil_iff.1 h)
  have hshort : (c.digits.map digitChar).length ≤ Integer.digitLimit := by
    rw [List.length_map]
    exact c.short
  have hmagnitude := Integer.readMagnitude_of_decimal hne isDecimal_of_mem_digits hshort
  have hread := Integer.read_of_decimal hne isDecimal_of_mem_digits hshort
  rw [valueOf_digits] at hmagnitude hread
  unfold Count.text Count.value
  cases c.sign with
  | minus =>
    simp only [Sign.text, List.singleton_append, Integer.read, Integer.readIn]
    rw [List.dropWhile_cons, if_neg (by decide)]
    simp only
    rw [hmagnitude]
    rfl
  | plus =>
    simp only [Sign.text, List.singleton_append, Integer.read, Integer.readIn]
    rw [List.dropWhile_cons, if_neg (by decide)]
    simp only
    rw [hmagnitude]
    rfl
  | none => exact hread

theorem repetitions_count (c : Count) : Repeat.repetitions c.text = c.times := by
  rw [Repeat.repetitions, read_count]
  simp only [Count.times]
  omega

/-! ## Unrolling -/

def Forest.several (f : Forest) : Nat → Forest
  | 0 => .nil
  | n + 1 => f.append (f.several n)

def Forest.unroll : Forest → Forest
  | .nil => .nil
  | .literal s rest => .literal s rest.unroll
  | .block count children rest => (children.unroll.several count.times).append rest.unroll
  | .component t rest => .component t rest.unroll
  | .value p rest => .value p rest.unroll

theorem Forest.print_several (f : Forest) (n : Nat) : (f.several n).print = Repeat.several n f.print := by
  induction n with
  | zero => rfl
  | succ n ih => rw [Forest.several, print_append, ih, Repeat.several_succ]

theorem Forest.mem_atoms_several {f : Forest} {n : Nat} {a : Atom} (h : a ∈ (f.several n).atoms) :
    a ∈ f.atoms := by
  induction n with
  | zero => cases h
  | succ n ih =>
    rw [several, atoms_append] at h
    rcases List.mem_append.1 h with h | h
    · exact h
    · exact ih h

/-- The atoms of the unrolled template are atoms of the template and no markers. -/
theorem Forest.mem_atoms_unroll {f : Forest} {a : Atom} (h : a ∈ f.unroll.atoms) :
    a ∈ f.atoms ∧ a.marker? = none := by
  induction f with
  | nil => cases h
  | literal s f ih =>
    rcases List.mem_cons.1 h with rfl | h
    · exact ⟨List.mem_cons_self, rfl⟩
    · exact ⟨List.mem_cons_of_mem _ (ih h).1, (ih h).2⟩
  | block count g f ihg ih =>
    rw [unroll, atoms_append] at h
    rcases List.mem_append.1 h with h | h
    · have hg := ihg (mem_atoms_several h)
      exact ⟨List.mem_append_left _ (List.mem_cons_of_mem _ hg.1), hg.2⟩
    · exact ⟨List.mem_append_right _ (List.mem_cons_of_mem _ (ih h).1), (ih h).2⟩
  | component t f ih =>
    rcases List.mem_cons.1 h with rfl | h
    · exact ⟨List.mem_cons_self, rfl⟩
    · exact ⟨List.mem_cons_of_mem _ (ih h).1, (ih h).2⟩
  | value p f ih =>
    rcases List.mem_cons.1 h with rfl | h
    · exact ⟨List.mem_cons_self, rfl⟩
    · exact ⟨List.mem_cons_of_mem _ (ih h).1, (ih h).2⟩

theorem emit_plain (level : Text) (stack : List Repeat.Frame) (s : Text)
    (rest : List (Scan.Piece Repeat.Marker)) :
    emit level stack (s.map .plain ++ rest) = emit (level ++ s) stack rest := by
  induction s generalizing level with
  | nil => rw [List.map_nil, List.nil_append, List.append_nil]
  | cons c s ih =>
    rw [List.map_cons, List.cons_append, emit, ih, List.append_assoc, List.singleton_append]

/-- Behind the pieces of a template its unrolling stands written, on the level on which they were met. -/
theorem emit_pieces (f : Forest) (level : Text) (stack : List Repeat.Frame)
    (rest : List (Scan.Piece Repeat.Marker)) :
    emit level stack (f.pieces Atom.marker? ++ rest) = emit (level ++ f.unroll.print) stack rest := by
  induction f generalizing level stack rest with
  | nil =>
    show emit level stack rest = emit (level ++ []) stack rest
    rw [List.append_nil]
  | literal s f ih =>
    have hpieces : (Forest.literal s f).pieces Atom.marker? =
        s.text.map .plain ++ f.pieces Atom.marker? := rfl
    rw [hpieces, List.append_assoc, emit_plain, ih, List.append_assoc]
    rfl
  | block count children f ihchildren ih =>
    have hpieces : (Forest.block count children f).pieces Atom.marker? =
        .mark (.opening count.text) (Atom.opening count).source ::
          (children.pieces Atom.marker? ++
            .mark .closing Atom.closing.source :: f.pieces Atom.marker?) := by
      simp [Forest.pieces, Forest.atoms, Atom.pieces, Atom.marker?]
    rw [hpieces, List.cons_append, emit, List.append_assoc, List.cons_append, ihchildren, emit,
      repetitions_count, ih, List.append_assoc, Forest.unroll, Forest.print_append,
      Forest.print_several, List.nil_append]
  | component t f ih =>
    have hpieces : (Forest.component t f).pieces Atom.marker? =
        (Atom.component t).source.map .plain ++ f.pieces Atom.marker? := rfl
    rw [hpieces, List.append_assoc, emit_plain, ih, List.append_assoc]
    rfl
  | value p f ih =>
    have hpieces : (Forest.value p f).pieces Atom.marker? =
        (Atom.value p).source.map .plain ++ f.pieces Atom.marker? := rfl
    rw [hpieces, List.append_assoc, emit_plain, ih, List.append_assoc]
    rfl

/-- Where the repeat pass gives a text, this is the template with its blocks unrolled. -/
theorem expand_print {f : Forest} {out : Text} (h : Repeat.expand f.print = .ok out) :
    out = f.unroll.print := by
  have hpieces := emit_pieces f [] [] []
  rw [List.append_nil] at hpieces
  rw [Repeat.expand_ok h, sees_marker.scan_print, hpieces, emit, Repeat.giveUp, List.nil_append]

end Sitewright.Template
