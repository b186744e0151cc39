import Sitewright.Proofs.Json.Reading
import Sitewright.Proofs.Json.Scalars
/-!
# Documents that are read back

A value is written as a document and read back from it as the same value: in the same nesting, with the same items and
the same members in the same order. Doubles are left out, and integers with more digits than are read.

* `Json.Value.Exact`: the value holds neither.
* `Json.Value.Distinct`: no object in the value has two members of one name. All that is read has this form.
* `Json.ReadsBack`: a value is read back, whatever may follow it.

Main statements: `Json.read_write`, `Json.distinct_of_read`, and `Json.exists_read_iff` for what some document stands
for.
-/
set_option autoImplicit false

namespace Sitewright.Json

open Numeral (isDigit)

variable {style : Style} {v w : Value} {items : List Value} {members : Members} {name rest blanks s : Text} {fuel : Nat}

/-- The value holds no double and no integer of more digits than are read. -/
inductive Value.Exact : Value → Prop
  | null : Exact .null
  | bool (b : Bool) : Exact (.bool b)
  | int {n : Int} (hshort : (Integer.ofNat n.natAbs).length ≤ Integer.digitLimit) : Exact (.int n)
  | string (s : Text) : Exact (.string s)
  | array {items : List Value} (hitems : ∀ v ∈ items, Exact v) : Exact (.array items)
  | object {members : Members} (hmembers : ∀ m ∈ members, Exact m.2) : Exact (.object members)

/-- No object in the value has two members of one name. -/
inductive Value.Distinct : Value → Prop
  | null : Distinct .null
  | bool (b : Bool) : Distinct (.bool b)
  | int (n : Int) : Distinct (.int n)
  | real (d : Double) : Distinct (.real d)
  | string (s : Text) : Distinct (.string s)
  | array {items : List Value} (hitems : ∀ v ∈ items, Distinct v) : Distinct (.array items)
  | object {members : Members} (hnames : (Keyed.keys members).Nodup) (hmembers : ∀ m ∈ members, Distinct m.2) :
      Distinct (.object members)

/-- The style parts neighbours by a comma and a name from its value by a colon, with nothing but blanks behind them. -/
structure Style.Parts (style : Style) : Prop where
  comma : ∃ blanks, style.comma = ',' :: blanks ∧ ∀ c ∈ blanks, isBlank c = true
  colon : ∃ blanks, style.colon = ':' :: blanks ∧ ∀ c ∈ blanks, isBlank c = true

theorem compact_parts : Style.compact.Parts :=
  ⟨⟨[], rfl, List.forall_mem_nil _⟩, ⟨[], rfl, List.forall_mem_nil _⟩⟩

theorem spaced_parts : Style.spaced.Parts :=
  ⟨⟨[' '], rfl, List.forall_mem_singleton.2 rfl⟩, ⟨[' '], rfl, List.forall_mem_singleton.2 rfl⟩⟩

/-! ## Where a value begins -/

theorem not_blank_of_isDigit {c : Char} (h : isDigit c = true) : isBlank c = false := by
  rw [Bool.eq_false_iff]
  intro hblank
  simp only [isBlank, Bool.or_eq_true, decide_eq_true_eq] at hblank
  rcases hblank with ((rfl | rfl) | rfl) | rfl <;> exact absurd h (by decide)

theorem ofInt_front (n : Int) : ∃ c t, Integer.ofInt n = c :: t ∧ (c = '-' ∨ isDigit c = true) := by
  cases n with
  | ofNat n =>
    obtain ⟨c, t, hdigits⟩ := List.exists_cons_of_ne_nil (ofNat_ne_nil (n := n))
    exact ⟨c, t, hdigits, .inr (isDigit_of_mem_ofNat (n := n) (hdigits ▸ List.mem_cons_self))⟩
  | negSucc n => exact ⟨_, _, rfl, .inl rfl⟩

theorem ne_of_isDigit {c d : Char} (h : c = '-' ∨ isDigit c = true) (hd : d ≠ '-' ∧ isDigit d = false) : c ≠ d := by
  rintro rfl
  rcases h with h | h
  · exact hd.1 h
  · exact Bool.false_ne_true (hd.2.symm.trans h)

/-- A value begins with a character that is neither a blank nor the end of an array. -/
theorem write_front (style : Style) (h : v.Exact) : ∃ c t, style.write v = c :: t ∧ isBlank c = false ∧ c ≠ ']' := by
  cases h with
  | null => exact ⟨_, _, rfl, by decide, by decide⟩
  | bool b =>
    cases b
    · exact ⟨_, _, rfl, by decide, by decide⟩
    · exact ⟨_, _, rfl, by decide, by decide⟩
  | @int n hshort =>
    obtain ⟨c, t, hfront, hc⟩ := ofInt_front n
    refine ⟨c, t, hfront, ?_, ne_of_isDigit hc (by decide)⟩
    rcases hc with rfl | hc
    · rfl
    · exact not_blank_of_isDigit hc
  | string s => exact ⟨_, _, rfl, by decide, by decide⟩
  | array hitems => exact ⟨_, _, rfl, by decide, by decide⟩
  | object hmembers => exact ⟨_, _, rfl, by decide, by decide⟩

theorem skipBlanks_cons {c : Char} (h : isBlank c = false) (s : Text) : skipBlanks (c :: s) = c :: s := by
  rw [skipBlanks, List.dropWhile_cons, h, if_neg Bool.false_ne_true]

theorem skipBlanks_append (h : ∀ c ∈ blanks, isBlank c = true) (s : Text) : skipBlanks (blanks ++ s) = skipBlanks s :=
  List.dropWhile_append_of_pos h

theorem skipBlanks_write (h : v.Exact) (s : Text) : skipBlanks (style.write v ++ s) = style.write v ++ s := by
  obtain ⟨c, t, hfront, hblank, -⟩ := write_front style h
  rw [hfront, List.cons_append, skipBlanks_cons hblank]

/-! ## Items and members in a row -/

theorem writeItems_first : style.writeItems true (v :: items) = style.write v ++ style.writeItems false items := by
  simp [Style.writeItems]

theorem writeItems_next : style.writeItems false (v :: items) = style.comma ++ style.writeItems true (v :: items) := by
  simp [Style.writeItems]

theorem writeMembers_first : style.writeMembers true ((name, v) :: members) =
    style.string name ++ style.colon ++ style.write v ++ style.writeMembers false members := by
  simp [Style.writeMembers]

theorem writeMembers_next : style.writeMembers false ((name, v) :: members) =
    style.comma ++ style.writeMembers true ((name, v) :: members) := by
  simp [Style.writeMembers]

/-- The value is read back from what it is written as, whatever may follow it. -/
def ReadsBack (style : Style) (v : Value) : Prop :=
  ∀ fuel rest, Follows rest → 2 * (style.write v).length < fuel →
    readValue fuel (style.write v ++ rest) = .ok (v, rest)

/-- The items of an array are read one after the other. -/
theorem readItems_writeItems (hstyle : style.Parts) {found : List Value}
    (hitems : ∀ w ∈ v :: items, w.Exact ∧ ReadsBack style w)
    (hfuel : 2 * (style.writeItems true (v :: items)).length + 1 < fuel) :
    readItems fuel found (style.writeItems true (v :: items) ++ ']' :: rest) =
      .ok (.array (found.reverse ++ v :: items), rest) := by
  obtain ⟨gap, hcomma, hgap⟩ := hstyle.comma
  -- on the items behind the first one, which has joined those found when the next one is read
  induction items generalizing v found fuel with
  | nil =>
    obtain ⟨fuel, rfl⟩ : ∃ k, fuel = k + 1 := ⟨fuel - 1, by omega⟩
    have hreads := (hitems v List.mem_cons_self).2
    rw [writeItems_first, Style.writeItems, List.append_nil] at hfuel ⊢
    rw [readItems, hreads fuel _ (follows_bracket _) (by omega)]
    simp only [skipBlanks_cons (c := ']') rfl, List.reverse_cons]
  | cons next items ih =>
    obtain ⟨fuel, rfl⟩ : ∃ k, fuel = k + 1 := ⟨fuel - 1, by omega⟩
    obtain ⟨hfirst, hmore⟩ := List.forall_mem_cons.1 hitems
    rw [writeItems_first, writeItems_next, hcomma] at hfuel ⊢
    rw [List.length_append, List.length_append, List.length_cons] at hfuel
    have hskip : skipBlanks (gap ++ (style.writeItems true (next :: items) ++ ']' :: rest)) =
        style.writeItems true (next :: items) ++ ']' :: rest := by
      rw [skipBlanks_append hgap, writeItems_first, List.append_assoc,
        skipBlanks_write (hmore next List.mem_cons_self).1]
    rw [List.append_assoc, List.append_assoc, List.cons_append, readItems,
      hfirst.2 fuel _ (follows_comma _) (by omega)]
    simp only [skipBlanks_cons (c := ',') rfl]
    rw [hskip, ih hmore (by omega), List.reverse_cons, List.append_assoc, List.singleton_append]

/-- A name and the value behind it are read; the object ends there, or the other members are read behind the comma. -/
theorem readMembers_member (hstyle : style.Parts) {found : Members} (hname : name ∉ Keyed.keys found) (hexact : v.Exact)
    (hreads : ReadsBack style v) (hfuel : 2 * (style.string name ++ style.colon ++ style.write v).length < fuel)
    (rest : Text) :
    readMembers (fuel + 1) found (style.string name ++ style.colon ++ style.write v ++ '\x7d' :: rest) =
      .ok (.object (found ++ [(name, v)]), rest) ∧
    readMembers (fuel + 1) found (style.string name ++ style.colon ++ style.write v ++ ',' :: rest) =
      readMembers fuel (found ++ [(name, v)]) (skipBlanks rest) := by
  obtain ⟨gap, hcolon, hgap⟩ := hstyle.colon
  rw [List.length_append, List.length_append] at hfuel
  have hvalue : ∀ rest, Follows rest →
      readValue fuel (skipBlanks (gap ++ (style.write v ++ rest))) = .ok (v, rest) := fun rest hrest => by
    rw [skipBlanks_append hgap, skipBlanks_write hexact, hreads fuel rest hrest (by omega)]
  constructor
  all_goals
    rw [List.append_assoc, List.append_assoc, string_append, hcolon, List.cons_append, readMembers,
      readString_string style (by omega)]
    simp only [skipBlanks_cons (c := ':') rfl, skipBlanks_cons (c := '\x7d') rfl, skipBlanks_cons (c := ',') rfl,
      hvalue _ (follows_brace rest), hvalue _ (follows_comma rest), Keyed.put_of_not_mem hname]

/-- The members of an object are read one after the other. -/
theorem readMembers_writeMembers (hstyle : style.Parts) {found : Members} {m : Text × Value}
    (hnames : (Keyed.keys (found ++ m :: members)).Nodup)
    (hmembers : ∀ e ∈ m :: members, e.2.Exact ∧ ReadsBack style e.2)
    (hfuel : 2 * (style.writeMembers true (m :: members)).length + 1 < fuel) :
    readMembers fuel found (style.writeMembers true (m :: members) ++ '\x7d' :: rest) =
      .ok (.object (found ++ m :: members), rest) := by
  obtain ⟨gap, hcomma, hgap⟩ := hstyle.comma
  induction members generalizing m found fuel with
  | nil =>
    obtain ⟨name, v⟩ := m
    obtain ⟨fuel, rfl⟩ : ∃ k, fuel = k + 1 := ⟨fuel - 1, by omega⟩
    obtain ⟨hexact, hreads⟩ : v.Exact ∧ ReadsBack style v := hmembers _ List.mem_cons_self
    rw [writeMembers_first, Style.writeMembers, List.append_nil] at hfuel ⊢
    exact (readMembers_member hstyle (Keyed.not_mem_keys_before hnames) hexact hreads (by omega) rest).1
  | cons next members ih =>
    obtain ⟨name, v⟩ := m
    obtain ⟨fuel, rfl⟩ : ∃ k, fuel = k + 1 := ⟨fuel - 1, by omega⟩
    obtain ⟨other, w⟩ := next
    obtain ⟨hexact, hreads⟩ : v.Exact ∧ ReadsBack style v := hmembers _ List.mem_cons_self
    rw [writeMembers_first, writeMembers_next, hcomma] at hfuel ⊢
    simp only [List.length_append, List.length_cons] at hfuel
    have hskip : skipBlanks (gap ++ (style.writeMembers true ((other, w) :: members) ++ '\x7d' :: rest)) =
        style.writeMembers true ((other, w) :: members) ++ '\x7d' :: rest := by
      rw [skipBlanks_append hgap, writeMembers_first, List.append_assoc, List.append_assoc, List.append_assoc,
        string_append, skipBlanks_cons rfl]
    have hlength : 2 * (style.string name ++ style.colon ++ style.write v).length < fuel := by
      simp only [List.length_append]
      omega
    have hmember := fun rest =>
      (readMembers_member hstyle (Keyed.not_mem_keys_before hnames) hexact hreads hlength rest).2
    -- the names found and those to come are distinct together, whichever of them stand before the comma
    have hfound : found ++ (name, v) :: (other, w) :: members = found ++ [(name, v)] ++ (other, w) :: members := by
      rw [List.append_assoc, List.singleton_append]
    rw [List.append_assoc (_ ++ style.write v), List.cons_append, List.cons_append, List.append_assoc gap, hmember,
      hskip, hfound, ih (hfound ▸ hnames) (List.forall_mem_cons.1 hmembers).2 (by omega)]

/-! ## Whole values -/

theorem readValue_plain {c : Char} (hquote : c ≠ '"') (hbracket : c ≠ '[') (hbrace : c ≠ '\x7b') (s : Text) :
    readValue (fuel + 1) (c :: s) = readPlain (c :: s) := by
  simp [readValue, hquote, hbracket, hbrace]

theorem readValue_array {c : Char} {t : Text} (hskip : skipBlanks s = c :: t) (hc : c ≠ ']') :
    readValue (fuel + 1) ('[' :: s) = readItems fuel [] (c :: t) := by
  simp [readValue, hskip, hc]

theorem readValue_object {c : Char} {t : Text} (hskip : skipBlanks s = c :: t) (hc : c ≠ '\x7d') :
    readValue (fuel + 1) ('\x7b' :: s) = readMembers fuel [] (c :: t) := by
  simp [readValue, hskip, hc]

theorem readsBack_word {word : Text} (hwrite : style.write v = word)
    (hread : ∀ fuel rest, readValue (fuel + 1) (word ++ rest) = .ok (v, rest)) : ReadsBack style v := by
  intro fuel rest _ hfuel
  obtain ⟨fuel, rfl⟩ : ∃ k, fuel = k + 1 := ⟨fuel - 1, by omega⟩
  rw [hwrite, hread]

theorem readsBack_int {n : Int} (hshort : (Integer.ofNat n.natAbs).length ≤ Integer.digitLimit) :
    ReadsBack style (.int n) := by
  intro fuel rest hrest hfuel
  obtain ⟨fuel, rfl⟩ : ∃ k, fuel = k + 1 := ⟨fuel - 1, by omega⟩
  obtain ⟨c, t, hfront, hc⟩ := ofInt_front n
  have hread := readPlain_ofInt hrest hshort
  rw [hfront, List.cons_append] at hread
  rw [Style.write, hfront, List.cons_append,
    readValue_plain (ne_of_isDigit hc (by decide)) (ne_of_isDigit hc (by decide)) (ne_of_isDigit hc (by decide)), hread]

theorem readsBack_string (s : Text) : ReadsBack style (.string s) := by
  intro fuel rest hrest hfuel
  obtain ⟨fuel, rfl⟩ : ∃ k, fuel = k + 1 := ⟨fuel - 1, by omega⟩
  rw [Style.write] at hfuel ⊢
  rw [string_append, readValue, readString_string style (by omega)]
  rfl

theorem readsBack_array (hstyle : style.Parts) (hitems : ∀ w ∈ items, w.Exact ∧ ReadsBack style w) :
    ReadsBack style (.array items) := by
  intro fuel rest hrest hfuel
  obtain ⟨fuel, rfl⟩ : ∃ k, fuel = k + 1 := ⟨fuel - 1, by omega⟩
  rw [Style.write] at hfuel ⊢
  cases items with
  | nil => rfl
  | cons v items =>
    obtain ⟨c, t, hfront, hblank, hc⟩ := write_front style (hitems v List.mem_cons_self).1
    have hbegin : style.writeItems true (v :: items) ++ ']' :: rest =
        c :: (t ++ style.writeItems false items ++ ']' :: rest) := by
      rw [writeItems_first, hfront, List.cons_append, List.cons_append]
    have hskip : skipBlanks (style.writeItems true (v :: items) ++ ']' :: rest) =
        c :: (t ++ style.writeItems false items ++ ']' :: rest) := by
      rw [hbegin, skipBlanks_cons hblank]
    rw [List.length_append, List.length_cons, List.length_singleton] at hfuel
    rw [List.append_assoc, List.singleton_append, List.cons_append, readValue_array hskip hc, ← hbegin,
      readItems_writeItems hstyle hitems (by omega), List.reverse_nil, List.nil_append]

theorem readsBack_object (hstyle : style.Parts) (hnames : (Keyed.keys members).Nodup)
    (hmembers : ∀ m ∈ members, m.2.Exact ∧ ReadsBack style m.2) : ReadsBack style (.object members) := by
  intro fuel rest hrest hfuel
  obtain ⟨fuel, rfl⟩ : ∃ k, fuel = k + 1 := ⟨fuel - 1, by omega⟩
  rw [Style.write] at hfuel ⊢
  cases members with
  | nil => rfl
  | cons m members =>
    obtain ⟨t, hbegin⟩ : ∃ t, style.writeMembers true (m :: members) ++ '\x7d' :: rest = '"' :: t := by
      rw [writeMembers_first, List.append_assoc, List.append_assoc, List.append_assoc, string_append]
      exact ⟨_, rfl⟩
    have hskip : skipBlanks (style.writeMembers true (m :: members) ++ '\x7d' :: rest) = '"' :: t := by
      rw [hbegin, skipBlanks_cons rfl]
    rw [List.length_append, List.length_cons, List.length_singleton] at hfuel
    rw [List.append_assoc, List.singleton_append, List.cons_append, readValue_object hskip (by decide), ← hbegin,
      readMembers_writeMembers hstyle hnames hmembers (by omega), List.nil_append]

theorem readsBack (hstyle : style.Parts) (hexact : v.Exact) (hdistinct : v.Distinct) : ReadsBack style v := by
  -- on what makes the value exact; what makes it distinct is taken apart beside it
  induction hexact with
  | null => exact readsBack_word rfl fun _ _ => rfl
  | bool b =>
    cases b
    · exact readsBack_word rfl fun _ _ => rfl
    · exact readsBack_word rfl fun _ _ => rfl
  | int hshort => exact readsBack_int hshort
  | string s => exact readsBack_string s
  | array hitems ih =>
    cases hdistinct with
    | array hdistinct => exact readsBack_array hstyle fun w hw => ⟨hitems w hw, ih w hw (hdistinct w hw)⟩
  | object hmembers ih =>
    cases hdistinct with
    | object hnames hdistinct =>
      exact readsBack_object hstyle hnames fun m hm => ⟨hmembers m hm, ih m hm (hdistinct m hm)⟩

/-- A document that a value is written as is read as the value. -/
theorem read_write (hstyle : style.Parts) (hexact : v.Exact) (hdistinct : v.Distinct) :
    read (style.write v) = .ok v := by
  have hskip : skipBlanks (style.write v) = style.write v := by
    obtain ⟨c, t, hfront, hblank, -⟩ := write_front style hexact
    rw [hfront, skipBlanks_cons hblank]
  have hread := readsBack hstyle hexact hdistinct (2 * (style.write v).length + 2) [] trivial (by omega)
  rw [List.append_nil] at hread
  rw [read, hskip, hread]
  rfl

/-! ## What is read -/

theorem distinct_of_mem_words : ∀ w ∈ words, w.2.Distinct := by
  simp only [words, List.forall_mem_cons]
  exact ⟨.null, .bool _, .bool _, .real _, .real _, .real _, List.forall_mem_nil _⟩

theorem distinct_of_readMagnitude {negative : Bool} (h : readMagnitude negative s = .ok (v, rest)) : v.Distinct := by
  unfold readMagnitude at h
  simp only at h
  split_ifs at h <;> cases h <;> constructor

theorem distinct_of_readPlain (h : readPlain s = .ok (v, rest)) : v.Distinct := by
  obtain ⟨w, hw, rfl⟩ | ⟨negative, body, h⟩ := readPlain_cases h
  · exact distinct_of_mem_words w hw
  · exact distinct_of_readMagnitude h

theorem distinct_empty : (Value.object []).Distinct := .object List.nodup_nil (List.forall_mem_nil _)

theorem Value.Distinct.put {found : Members} (h : (Value.object found).Distinct) (hv : v.Distinct) (name : Text) :
    (Value.object (Keyed.put name v found)).Distinct := by
  cases h with
  | object hnames hfound =>
    refine .object (Keyed.nodup_keys_put hnames) fun m hm => ?_
    rcases Keyed.mem_put hm with ⟨-, hvalue⟩ | hm
    · exact hvalue ▸ hv
    · exact hfound m hm

theorem distinct_kept : KeptByReading Value.Distinct where
  plain _ _ _ := distinct_of_readPlain
  string := .string
  array _ := .array
  empty := distinct_empty
  put name _ _ hmembers hv := hmembers.put hv name

/-- No object that is read has two members of one name. -/
theorem distinct_of_read (h : read s = .ok v) : v.Distinct := distinct_kept.of_read h

/-- The value is no double. -/
def Value.NotReal (v : Value) : Prop := ∀ d, v ≠ .real d

theorem exact_of_every (hreal : v.Every Value.NotReal) (hshort : v.Every Value.Short) : v.Exact := by
  induction hreal with
  | null => exact .null
  | bool => exact .bool _
  | int =>
    cases hshort with
    | int h => exact .int (h _ rfl)
  | real h => exact absurd rfl (h _)
  | string => exact .string _
  | array _ _ ih =>
    cases hshort with
    | array _ hitems => exact .array fun w hw => ih w hw (hitems w hw)
  | object _ _ ih =>
    cases hshort with
    | object _ hmembers => exact .object fun m hm => ih m hm (hmembers m hm)

theorem Value.Exact.every_notReal (h : v.Exact) : v.Every Value.NotReal := by
  induction h with
  | null => exact .null nofun
  | bool => exact .bool nofun
  | int => exact .int nofun
  | string => exact .string nofun
  | array _ ih => exact .array nofun ih
  | object _ ih => exact .object nofun ih

/-- The values without doubles that some document stands for are those that are written and read back. -/
theorem exists_read_iff (hstyle : style.Parts) :
    ((∃ s, read s = .ok v) ∧ v.Every Value.NotReal) ↔ v.Exact ∧ v.Distinct := by
  constructor
  · rintro ⟨⟨s, hread⟩, hreal⟩
    exact ⟨exact_of_every hreal (every_short_of_read hread), distinct_of_read hread⟩
  · rintro ⟨hexact, hdistinct⟩
    exact ⟨⟨style.write v, read_write hstyle hexact hdistinct⟩, hexact.every_notReal⟩

end Sitewright.Json
