import Mathlib
import Sitewright.Build.Address
import Sitewright.Proofs.Site
import Sitewright.Proofs.Text.Occurrence
import Sitewright.Proofs.Text.Scanning
/-!
# Rooted references

References to static directories are rooted at the base in one pass for each directory, and each pass reads what the
ones before it have written. That makes no difference: a reference holds one equality sign, behind its attribute, so
none begins within another one; and a reference that has been rooted leads to the base, and so to no static directory.

* `Refers`: a reference as it may be written.
* `rootAll`: the references to any of some directories rooted in a single pass.

Main statements: `staticReference_eq_some_iff`, `rootDirectory_rootAll`, `marks_rootAll`,
`rewriteAddresses_single_pass`.
-/
set_option autoImplicit false

namespace Sitewright.Build

open Text (isBlank)
open Scan (Still still_cons still_append still_of_forall still_or_first)

variable {base d e rest s source t u v y : Text} {found : StaticReference} {n : Nat}

/-! ## Names and bases -/

/-- A name without the signs that have a meaning in an address or around it, as all names of letters, digits, hyphens
and underscores are. -/
structure SimpleName (name : Text) : Prop where
  ne_nil : name ≠ []
  dot : '.' ∉ name
  slash : '/' ∉ name
  colon : ':' ∉ name
  sign : '=' ∉ name
  bracket : '<' ∉ name

theorem simpleName_of_alphanum (hne : s ≠ []) (h : s.all (fun c => c.isAlphanum || c = '-' || c = '_') = true) :
    SimpleName s := by
  have hfree : ∀ {c : Char}, (c.isAlphanum || c = '-' || c = '_') = false → c ∉ s := by
    intro c hc hmem
    rw [List.all_eq_true.1 h c hmem] at hc
    cases hc
  exact ⟨hne, hfree (by decide), hfree (by decide), hfree (by decide), hfree (by decide), hfree (by decide)⟩

/-- A base that leads to the root of a host, by a path or by a full address. -/
structure AbsoluteBase (base : Text) : Prop where
  leads : Text.startsWith ['/'] base = true ∨ Text.startsWith "http://".toList base = true ∨
    Text.startsWith "https://".toList base = true
  sign : '=' ∉ base

theorem AbsoluteBase.exists_eq (h : AbsoluteBase base) : ∃ scheme r, base = scheme ++ '/' :: r ∧ '/' ∉ scheme ∧
    scheme.head? ≠ some '.' ∧ (scheme = [] ∨ ':' ∈ scheme) := by
  have hleads := h.leads
  simp only [Text.startsWith_iff] at hleads
  rcases hleads with ⟨r, rfl⟩ | ⟨r, rfl⟩ | ⟨r, rfl⟩
  · exact ⟨[], r, rfl, by decide, by decide, .inl rfl⟩
  · exact ⟨"http:".toList, '/' :: r, rfl, by decide, by decide, .inr (by decide)⟩
  · exact ⟨"https:".toList, '/' :: r, rfl, by decide, by decide, .inr (by decide)⟩

theorem AbsoluteBase.isEmpty_eq (h : AbsoluteBase base) : base.isEmpty = false := by
  obtain ⟨scheme, r, rfl, -⟩ := h.exists_eq
  simp

/-! ## Attributes with a quote -/

/-- An attribute with the quote that follows it, behind an equality sign, and what follows the quote. -/
def quoteBehind? (attr s : Text) : Option (StaticReference × Text) :=
  match s.dropWhile isBlank with
  | '=' :: s =>
    match s.dropWhile isBlank with
    | quote :: s => if quote = '"' || quote = '\'' then some (⟨attr, quote⟩, s) else none
    | [] => none
  | _ => none

/-- The attribute and the quote at the front of a text, and what follows the quote. -/
def quoted? (s : Text) : Option (StaticReference × Text) :=
  addressAttributes.findSome? fun attr => (Text.after? attr s).bind (quoteBehind? attr)

theorem attr_cases {attr : Text} (h : attr ∈ addressAttributes) : attr = "href".toList ∨ attr = "src".toList := by
  simpa only [addressAttributes, List.mem_cons, List.not_mem_nil, or_false] using h

theorem findSome?_attributes {β : Type} {attr : Text} (hattr : attr ∈ addressAttributes) (read : Text → Text → Option β)
    (s : Text) : (addressAttributes.findSome? fun a => (Text.after? a (attr ++ s)).bind (read a)) = read attr s := by
  have hlist : addressAttributes = ["href".toList, "src".toList] := rfl
  rw [hlist, List.findSome?_cons, List.findSome?_cons, List.findSome?_nil]
  rcases attr_cases hattr with rfl | rfl
  · have hother : Text.after? "src".toList ("href".toList ++ s) = none := rfl
    rw [Text.after?_append, hother, Option.bind_some]
    cases read "href".toList s <;> rfl
  · have hother : Text.after? "href".toList ("src".toList ++ s) = none := rfl
    rw [Text.after?_append, hother, Option.bind_some]
    cases read "src".toList s <;> rfl

/-- An attribute with a quote, as in a reference. -/
structure StaticReference.Proper (found : StaticReference) : Prop where
  attr : found.attr ∈ addressAttributes
  quote : found.quote = '"' ∨ found.quote = '\''

theorem quoteBehind?_eq_some_iff {attr : Text} : quoteBehind? attr s = some (found, t) ↔ found.attr = attr ∧
    (found.quote = '"' ∨ found.quote = '\'') ∧ ∃ gap gap', (∀ c ∈ gap ++ gap', isBlank c = true) ∧
      s = gap ++ '=' :: (gap' ++ found.quote :: t) := by
  unfold quoteBehind?
  constructor
  · intro h
    split at h
    · rename_i y hy
      split at h
      · rename_i quote z hz
        split at h
        · rename_i hquote
          cases h
          refine ⟨rfl, by simpa using hquote, s.takeWhile isBlank, y.takeWhile isBlank, ?_, ?_⟩
          · intro c hc
            rcases List.mem_append.1 hc with hc | hc
            · exact List.mem_takeWhile_imp hc
            · exact List.mem_takeWhile_imp hc
          · rw [← hz, List.takeWhile_append_dropWhile, ← hy, List.takeWhile_append_dropWhile]
        · cases h
      · cases h
    · cases h
  · rintro ⟨rfl, hquote, gap, gap', hblank, rfl⟩
    have hmark : isBlank found.quote = false := by rcases hquote with h | h <;> rw [h] <;> decide
    have hgap : ∀ c ∈ gap, isBlank c = true := fun c hc => hblank c (List.mem_append_left _ hc)
    have hgap' : ∀ c ∈ gap', isBlank c = true := fun c hc => hblank c (List.mem_append_right _ hc)
    have hsign : isBlank '=' = false := by decide
    simp only [Text.dropWhile_gap hgap hsign, Text.dropWhile_gap hgap' hmark]
    simp [hquote]

theorem quoted?_eq_some_iff : quoted? s = some (found, t) ↔
    found.Proper ∧ ∃ gap gap', (∀ c ∈ gap ++ gap', isBlank c = true) ∧
      s = found.attr ++ (gap ++ '=' :: (gap' ++ found.quote :: t)) := by
  constructor
  · intro h
    obtain ⟨attr, hattr, h⟩ := List.exists_of_findSome?_eq_some h
    simp only [Option.bind_eq_some_iff, Text.after?_eq_some_iff, quoteBehind?_eq_some_iff] at h
    obtain ⟨x, rfl, rfl, hquote, gap, gap', hblank, rfl⟩ := h
    exact ⟨⟨hattr, hquote⟩, gap, gap', hblank, rfl⟩
  · rintro ⟨⟨hattr, hquote⟩, gap, gap', hblank, rfl⟩
    rw [quoted?, findSome?_attributes hattr, quoteBehind?_eq_some_iff]
    exact ⟨rfl, hquote, gap, gap', hblank, rfl⟩

/-- A reference is recognised by its attribute and its quote first, and by its directory then. -/
theorem staticReference_eq (dir s : Text) : staticReference dir s = (quoted? s).bind fun read =>
    (afterDirectory? dir read.2).map fun behind => (read.1, s.length - behind.length) := by
  have hread : staticReference dir s = addressAttributes.findSome? fun attr => (Text.after? attr s).bind fun rest =>
      (quoteBehind? attr rest).bind fun read =>
        (afterDirectory? dir read.2).map fun behind => (read.1, s.length - behind.length) := by
    refine congrArg (List.findSome? · addressAttributes) (funext fun attr => ?_)
    refine congrArg (Option.bind _ ·) (funext fun rest => ?_)
    unfold quoteBehind?
    rcases rest.dropWhile isBlank with _ | ⟨c, y⟩
    · rfl
    by_cases hc : c = '='
    · subst hc
      simp only
      rcases y.dropWhile isBlank with _ | ⟨quote, z⟩
      · rfl
      · simp only
        split
        · exact Option.map_eq_bind.symm
        · rfl
    · simp [hc]
  rw [hread]
  by_cases h : ∃ attr ∈ addressAttributes, ∃ x, s = attr ++ x
  · obtain ⟨attr, hattr, x, rfl⟩ := h
    rw [findSome?_attributes hattr, quoted?, findSome?_attributes hattr]
  · have hnone : ∀ attr ∈ addressAttributes, Text.after? attr s = none := by
      intro attr hattr
      rw [Option.eq_none_iff_forall_not_mem]
      intro x hx
      exact h ⟨attr, hattr, x, Text.after?_eq_some_iff.1 hx⟩
    rw [quoted?, List.findSome?_eq_none_iff.2, List.findSome?_eq_none_iff.2]
    · rfl
    · intro attr hattr
      rw [hnone attr hattr, Option.bind_none]
    · intro attr hattr
      rw [hnone attr hattr, Option.bind_none]

/-! ## References as they are written -/

/-- A reference to a directory as it may be written. -/
def Refers (found : StaticReference) (dir source : Text) : Prop :=
  found.Proper ∧ ∃ gap gap' dot, (∀ c ∈ gap ++ gap', isBlank c = true) ∧ (dot = [] ∨ dot = ['.', '/']) ∧
    source = found.attr ++ (gap ++ '=' :: (gap' ++ found.quote :: (dot ++ (dir ++ ['/']))))

theorem SimpleName.dot_ne (h : SimpleName d) (u r : Text) : '.' :: u ≠ d ++ '/' :: r := by
  intro hu
  obtain ⟨c, name, rfl⟩ := List.exists_cons_of_ne_nil h.ne_nil
  cases hu
  exact h.dot List.mem_cons_self

theorem afterDirectory?_eq_some_iff (hd : SimpleName d) : afterDirectory? d t = some rest ↔
    ∃ dot, (dot = [] ∨ dot = ['.', '/']) ∧ t = dot ++ (d ++ '/' :: rest) := by
  have hsplit : ∀ u, Text.after? (d ++ ['/']) u = some rest ↔ u = d ++ '/' :: rest := by
    intro u
    rw [Text.after?_eq_some_iff]
    simp
  unfold afterDirectory?
  split
  · rename_i u
    have hnone : Text.after? (d ++ ['/']) ('.' :: '/' :: u) = none := by
      cases hafter : Text.after? (d ++ ['/']) ('.' :: '/' :: u) with
      | none => rfl
      | some r => exact absurd (by simpa using Text.after?_eq_some_iff.1 hafter) (hd.dot_ne ('/' :: u) r)
    rw [hnone, Option.or_none, hsplit]
    constructor
    · rintro rfl
      exact ⟨['.', '/'], .inr rfl, rfl⟩
    · rintro ⟨dot, rfl | rfl, h⟩
      · exact absurd h (hd.dot_ne _ _)
      · exact (List.cons.inj (List.cons.inj h).2).2
  · rename_i hplain
    rw [hsplit]
    constructor
    · exact fun h => ⟨[], .inl rfl, h⟩
    · rintro ⟨dot, rfl | rfl, h⟩
      · exact h
      · exact absurd h (hplain _)

theorem staticReference_eq_some_iff (hd : SimpleName d) : staticReference d s = some (found, n) ↔
    ∃ source rest, s = source ++ rest ∧ n = source.length ∧ Refers found d source := by
  simp only [staticReference_eq, Option.bind_eq_some_iff, Option.map_eq_some_iff, Prod.exists, Prod.mk.injEq]
  constructor
  · rintro ⟨f, t, hquoted, rest, hrest, rfl, rfl⟩
    obtain ⟨hproper, gap, gap', hblank, rfl⟩ := quoted?_eq_some_iff.1 hquoted
    obtain ⟨dot, hdot, rfl⟩ := (afterDirectory?_eq_some_iff hd).1 hrest
    refine ⟨_, rest, ?_, ?_, hproper, gap, gap', dot, hblank, hdot, rfl⟩
    · simp
    · simp
      omega
  · rintro ⟨source, rest, rfl, rfl, hproper, gap, gap', dot, hblank, hdot, rfl⟩
    refine ⟨found, dot ++ (d ++ '/' :: rest), ?_, rest, ?_, rfl, ?_⟩
    · rw [quoted?_eq_some_iff]
      exact ⟨hproper, gap, gap', hblank, by simp⟩
    · exact (afterDirectory?_eq_some_iff hd).2 ⟨dot, hdot, rfl⟩
    · simp
      omega

/-- A reference leads to one directory. -/
theorem eq_of_staticReference {x y : StaticReference × Nat} (hd : SimpleName d) (he : SimpleName e)
    (hx : staticReference d s = some x) (hy : staticReference e s = some y) : d = e := by
  simp only [staticReference_eq, Option.bind_eq_some_iff, Option.map_eq_some_iff] at hx hy
  obtain ⟨read, hread, rest, hrest, -⟩ := hx
  obtain ⟨read', hread', rest', hrest', -⟩ := hy
  rw [hread] at hread'
  cases hread'
  obtain ⟨dot, hdot, h⟩ := (afterDirectory?_eq_some_iff hd).1 hrest
  obtain ⟨dot', hdot', h'⟩ := (afterDirectory?_eq_some_iff he).1 hrest'
  rw [h] at h'
  rcases hdot with rfl | rfl <;> rcases hdot' with rfl | rfl
  · exact (Text.append_cons_unique hd.slash he.slash h').1
  · exact absurd h'.symm (hd.dot_ne _ _)
  · exact absurd h' (he.dot_ne _ _)
  · rw [List.append_cancel_left_eq] at h'
    exact (Text.append_cons_unique hd.slash he.slash h').1

/-! ## No reference begins within another one -/

theorem quoted?_cons {c : Char} (h : c ≠ 'h') (h' : c ≠ 's') (s : Text) : quoted? (c :: s) = none := by
  have hhref : Text.after? "href".toList (c :: s) = none := if_neg (Ne.symm h)
  have hsrc : Text.after? "src".toList (c :: s) = none := if_neg (Ne.symm h')
  have hlist : addressAttributes = ["href".toList, "src".toList] := rfl
  rw [quoted?, hlist, List.findSome?_cons, List.findSome?_cons, hhref, hsrc]
  rfl

theorem still_of_free (h : 'h' ∉ u ∧ 's' ∉ u) (v : Text) : Still quoted? u v :=
  still_of_forall (fun _ hc => quoted?_cons (ne_of_mem_of_not_mem hc h.1) (ne_of_mem_of_not_mem hc h.2)) v

/-- A character that may stand neither in front of an equality sign behind an attribute nor in that place. -/
structure Stops (z : Char) : Prop where
  blank : isBlank z = false
  sign : z ≠ '='
  letter : ∀ attr ∈ addressAttributes, z ∉ attr

theorem stops_slash : Stops '/' where
  blank := by decide
  sign := by decide
  letter := by decide

theorem quoted?_of_stops {z : Char} (hz : Stops z) (h : '=' ∉ y) (v : Text) : quoted? (y ++ z :: v) = none := by
  rw [Option.eq_none_iff_forall_not_mem]
  rintro ⟨found, t⟩ hquoted
  obtain ⟨hproper, gap, gap', hblank, hsplit⟩ := quoted?_eq_some_iff.1 hquoted
  have hfree : z ∉ found.attr ++ gap := by
    rw [List.mem_append, not_or]
    refine ⟨hz.letter _ hproper.attr, fun hgap => ?_⟩
    have hblank' := hblank z (List.mem_append_left _ hgap)
    rw [hz.blank] at hblank'
    cases hblank'
  rw [← List.append_assoc found.attr] at hsplit
  exact hz.sign (Text.append_cons_unique h hfree hsplit).2.1

theorem still_of_stops {z : Char} (hz : Stops z) (h : '=' ∉ y) (v : Text) : Still quoted? (y ++ [z]) v := by
  induction y with
  | nil => exact still_cons.2 ⟨quoted?_of_stops hz h v, Scan.still_nil _ _⟩
  | cons c y ih =>
    refine still_cons.2 ⟨?_, ih fun hmem => h (List.mem_cons_of_mem c hmem)⟩
    have hnone := quoted?_of_stops hz h v
    simpa using hnone

theorem still_assigned {attr gap : Text} {a z : Char} (hattr : a :: attr ∈ addressAttributes)
    (hblank : ∀ c ∈ gap, isBlank c = true) (hz : Stops z) (h : '=' ∉ y) (v : Text) :
    Still quoted? (attr ++ (gap ++ '=' :: (y ++ [z]))) v := by
  have hletters : 'h' ∉ attr ∧ 's' ∉ attr := by
    rcases attr_cases hattr with heq | heq
    · cases heq
      decide
    · cases heq
      decide
  have hgap : 'h' ∉ gap ∧ 's' ∉ gap :=
    ⟨fun hc => absurd (hblank _ hc) (by decide), fun hc => absurd (hblank _ hc) (by decide)⟩
  rw [still_append, still_append, still_cons]
  exact ⟨still_of_free hletters _, still_of_free hgap _, quoted?_cons (by decide) (by decide) _, still_of_stops hz h v⟩

theorem StaticReference.Proper.exists_attr (h : found.Proper) : ∃ a attr, found.attr = a :: attr := by
  rcases attr_cases h.attr with h | h <;> exact ⟨_, _, h⟩

theorem StaticReference.Proper.quote_ne (h : found.Proper) : found.quote ≠ '=' := by
  rcases h.quote with h | h <;> rw [h] <;> decide

theorem Refers.still {c : Char} (hd : SimpleName d) (h : Refers found d (c :: source)) (v : Text) :
    Still quoted? source v := by
  obtain ⟨hproper, gap, gap', dot, hblank, hdot, hsource⟩ := h
  obtain ⟨a, attr, hcons⟩ := hproper.exists_attr
  have hattr := hproper.attr
  rw [hcons] at hsource hattr
  rw [List.cons_append, List.cons.injEq] at hsource
  obtain ⟨rfl, rfl⟩ := hsource
  have hsign : '=' ∉ gap' ++ found.quote :: (dot ++ d) := by
    have hgap' : '=' ∉ gap' := fun hc => absurd (hblank _ (List.mem_append_right _ hc)) (by decide)
    have hdot' : '=' ∉ dot := by rcases hdot with rfl | rfl <;> decide
    simp [hgap', hdot', hd.sign, Ne.symm hproper.quote_ne]
  have hstill := still_assigned hattr (fun c hc => hblank c (List.mem_append_left _ hc)) stops_slash hsign v
  simpa using hstill

/-! ## Rooted references -/

/-- A reference to a directory, rooted at a base. -/
def rooted (base : Text) (found : StaticReference) (dir : Text) : Text :=
  found.attr ++ '=' :: found.quote :: base ++ '/' :: dir ++ ['/']

/-- A rooted reference leads to the base, and to no static directory. -/
theorem staticReference_of_base (hbase : AbsoluteBase base) (hd : SimpleName d) (hproper : found.Proper) (v : Text) :
    staticReference d (found.attr ++ '=' :: found.quote :: (base ++ v)) = none := by
  have hquoted : quoted? (found.attr ++ '=' :: found.quote :: (base ++ v)) = some (found, base ++ v) :=
    quoted?_eq_some_iff.2 ⟨hproper, [], [], by simp, rfl⟩
  have hnone : afterDirectory? d (base ++ v) = none := by
    rw [Option.eq_none_iff_forall_not_mem]
    intro rest hrest
    obtain ⟨scheme, r, rfl, hslash, hdot, hscheme⟩ := hbase.exists_eq
    obtain ⟨dot, rfl | rfl, h⟩ := (afterDirectory?_eq_some_iff hd).1 hrest
    · rw [List.append_assoc] at h
      obtain ⟨rfl, -⟩ := Text.append_cons_unique hslash hd.slash h
      rcases hscheme with rfl | hcolon
      · exact hd.ne_nil rfl
      · exact hd.colon hcolon
    · cases scheme with
      | nil => cases h
      | cons c scheme =>
        obtain ⟨rfl, -⟩ := List.cons.inj h
        exact hdot rfl
  rw [staticReference_eq, hquoted, Option.bind_some, hnone]
  rfl

theorem staticReference_of_not_quoted (d : Text) (h : quoted? s = none) : staticReference d s = none := by
  rw [staticReference_eq, h, Option.bind_none]

theorem still_based {z : Char} (hbase : AbsoluteBase base) (hd : SimpleName d) (hproper : found.Proper) (hz : Stops z)
    (h : '=' ∉ y) (v : Text) :
    Still (staticReference d) (found.attr ++ '=' :: found.quote :: (base ++ (y ++ [z]))) v := by
  obtain ⟨a, attr, hcons⟩ := hproper.exists_attr
  have hattr := hproper.attr
  have hfront := staticReference_of_base hbase hd hproper (y ++ z :: v)
  rw [hcons] at hattr hfront
  have hsign : '=' ∉ found.quote :: (base ++ y) := by
    simp [Ne.symm hproper.quote_ne, hbase.sign, h]
  have hstill := still_assigned hattr (List.forall_mem_nil _) hz hsign v
  rw [hcons, List.cons_append, still_cons]
  refine ⟨by simpa using hfront, ?_⟩
  simpa using hstill.mono fun s => staticReference_of_not_quoted d

theorem still_rooted (hbase : AbsoluteBase base) (hd : SimpleName d) (he : SimpleName e) (hproper : found.Proper)
    (v : Text) : Still (staticReference d) (rooted base found e) v := by
  have hsign : '=' ∉ '/' :: e := by simp [he.sign]
  simpa [rooted] using still_based hbase hd hproper stops_slash hsign v

theorem quoted?_rooted (hproper : found.Proper) (base e v : Text) :
    (quoted? (rooted base found e ++ v)).isSome = true := by
  have hquoted : quoted? (rooted base found e ++ v) = some (found, base ++ '/' :: (e ++ '/' :: v)) :=
    quoted?_eq_some_iff.2 ⟨hproper, [], [], by simp, by simp [rooted]⟩
  rw [hquoted]
  rfl

/-! ## All directories at once -/

/-- Recognises a reference to any of some directories, and says to which. -/
def anyReference (dirs : List Text) : Recognizer (StaticReference × Text) := fun s =>
  dirs.findSome? fun dir => (staticReference dir s).map fun read => ((read.1, dir), read.2)

/-- The text with the references to any of some directories rooted at a base, in a single pass. -/
def rootAll (base : Text) (dirs : List Text) (s : Text) : Text :=
  Scan.substitute (anyReference dirs) (fun read _ => rooted base read.1 read.2) s

section

variable {dirs dirs' : List Text}

theorem anyReference_eq_none_iff : anyReference dirs s = none ↔ ∀ d ∈ dirs, staticReference d s = none := by
  simp [anyReference, List.findSome?_eq_none_iff]

theorem anyReference_of_not_quoted (dirs : List Text) (h : quoted? s = none) : anyReference dirs s = none :=
  anyReference_eq_none_iff.2 fun d _ => staticReference_of_not_quoted d h

theorem mem_of_anyReference (h : anyReference dirs s = some ((found, d), n)) :
    d ∈ dirs ∧ staticReference d s = some (found, n) := by
  obtain ⟨e, he, h⟩ := List.exists_of_findSome?_eq_some h
  obtain ⟨read, hread, h⟩ := Option.map_eq_some_iff.1 h
  cases h
  exact ⟨he, hread⟩

/-- No two of the directories compete for a reference. -/
theorem anyReference_eq_some_iff (hdirs : ∀ d ∈ dirs, SimpleName d) :
    anyReference dirs s = some ((found, d), n) ↔ d ∈ dirs ∧ staticReference d s = some (found, n) := by
  refine ⟨mem_of_anyReference, fun ⟨hd, hread⟩ => ?_⟩
  cases hany : anyReference dirs s with
  | none =>
    rw [anyReference_eq_none_iff.1 hany d hd] at hread
    cases hread
  | some other =>
    obtain ⟨⟨found', e⟩, m⟩ := other
    obtain ⟨he, hread'⟩ := mem_of_anyReference hany
    obtain rfl := eq_of_staticReference (hdirs d hd) (hdirs e he) hread hread'
    rw [hread] at hread'
    cases hread'
    rfl

theorem anyReference_congr (hdirs : ∀ d ∈ dirs, SimpleName d) (hmem : ∀ d, d ∈ dirs ↔ d ∈ dirs') :
    anyReference dirs = anyReference dirs' := by
  have hdirs' : ∀ d ∈ dirs', SimpleName d := fun d hd => hdirs d ((hmem d).2 hd)
  refine funext fun s => Option.ext fun read => ?_
  obtain ⟨⟨found, d⟩, n⟩ := read
  rw [anyReference_eq_some_iff hdirs, anyReference_eq_some_iff hdirs', hmem]

theorem rootAll_congr (hdirs : ∀ d ∈ dirs, SimpleName d) (hmem : ∀ d, d ∈ dirs ↔ d ∈ dirs') (base s : Text) :
    rootAll base dirs s = rootAll base dirs' s := by
  rw [rootAll, rootAll, anyReference_congr hdirs hmem]

/-! ## One directory after the other -/

theorem Refers.ne_nil (h : Refers found d source) : source ≠ [] := by
  obtain ⟨hproper, gap, gap', dot, -, -, rfl⟩ := h
  obtain ⟨a, attr, hcons⟩ := hproper.exists_attr
  simp [hcons]

theorem rootAll_append_of_refers (hdirs : ∀ d ∈ dirs, SimpleName d) (hd : d ∈ dirs) (h : Refers found d source)
    (base v : Text) : rootAll base dirs (source ++ v) = rooted base found d ++ rootAll base dirs v := by
  refine Scan.substitute_append_of_mark (a := (found, d)) h.ne_nil ?_
  rw [anyReference_eq_some_iff hdirs, staticReference_eq_some_iff (hdirs d hd)]
  exact ⟨hd, source, v, rfl, rfl, h⟩

theorem rootDirectory_append_of_refers (hd : SimpleName d) (h : Refers found d source) (base v : Text) :
    rootDirectory base d (source ++ v) = rooted base found d ++ rootDirectory base d v := by
  refine Scan.substitute_append_of_mark (a := found) h.ne_nil ?_
  rw [staticReference_eq_some_iff hd]
  exact ⟨source, v, rfl, rfl, h⟩

theorem simpleNames_concat (hdirs : ∀ e ∈ dirs, SimpleName e) (hd : SimpleName d) :
    ∀ e ∈ dirs ++ [d], SimpleName e := by
  intro e he
  rcases List.mem_append.1 he with he | he
  · exact hdirs e he
  · rwa [List.mem_singleton.1 he]

/-- A reference in front of a text with rooted references has been there before them. -/
theorem staticReference_of_rootAll {c : Char} (hdirs : ∀ d ∈ dirs, SimpleName d) (hd : SimpleName d)
    (h : staticReference d (c :: rootAll base dirs s) = some (found, n)) :
    staticReference d (c :: s) = some (found, n) := by
  obtain ⟨source, rest, hsplit, rfl, hrefers⟩ := (staticReference_eq_some_iff hd).1 h
  rw [staticReference_eq_some_iff hd]
  rcases still_or_first (anyReference dirs) s with hstill | ⟨x, b, t, read, rfl, hread, hstill⟩
  · rw [rootAll, Scan.substitute_of_still hstill] at hsplit
    exact ⟨source, rest, hsplit, rfl, hrefers⟩
  · obtain ⟨⟨found', e⟩, m⟩ := read
    obtain ⟨he, hread'⟩ := mem_of_anyReference hread
    obtain ⟨source', v, hsplit', -, hrefers'⟩ := (staticReference_eq_some_iff (hdirs e he)).1 hread'
    rw [rootAll, Scan.substitute_append_of_still hstill, hsplit', ← rootAll,
      rootAll_append_of_refers hdirs he hrefers', ← List.cons_append] at hsplit
    rcases List.append_eq_append_iff.1 hsplit with ⟨y, rfl, htail⟩ | ⟨y, hy, -⟩
    · cases y with
      | nil => exact ⟨c :: x ++ [], b :: t, by simp, rfl, hrefers⟩
      | cons g y =>
        -- a rooted reference would begin within the reference
        have hnone := hrefers.still hd rest x g y rfl
        have hsome := quoted?_rooted hrefers'.1 base e (rootAll base dirs v)
        rw [htail, List.cons_append, hnone] at hsome
        cases hsome
    · exact ⟨source, y ++ b :: t, by rw [← List.cons_append, hy, List.append_assoc], rfl, hrefers⟩

/-- Rooting the references to one more directory, in what has been rooted already, is rooting them all at once. -/
theorem rootDirectory_rootAll (hbase : AbsoluteBase base) (hdirs : ∀ e ∈ dirs, SimpleName e) (hd : SimpleName d)
    (s : Text) : rootDirectory base d (rootAll base dirs s) = rootAll base (dirs ++ [d]) s := by
  have hall := simpleNames_concat hdirs hd
  induction hn : s.length using Nat.strongRecOn generalizing s with
  | _ n ih =>
    rcases s with _ | ⟨c, t⟩
    · rfl
    have hshorter : ∀ source v : Text, source ≠ [] → c :: t = source ++ v → v.length < n := by
      intro source v hne hsplit
      rw [← hn, hsplit, List.length_append]
      have hpos := List.length_pos_iff.2 hne
      omega
    cases hany : anyReference dirs (c :: t) with
    | some read =>
      obtain ⟨⟨found, e⟩, m⟩ := read
      obtain ⟨he, hread⟩ := mem_of_anyReference hany
      obtain ⟨source, v, hsplit, -, hrefers⟩ := (staticReference_eq_some_iff (hdirs e he)).1 hread
      rw [hsplit, rootAll_append_of_refers hdirs he hrefers,
        rootAll_append_of_refers hall (List.mem_append_left _ he) hrefers]
      -- the pass for `d` finds nothing in the rooted reference
      have hstill := still_rooted hbase hd (hdirs e he) hrefers.1 (rootAll base dirs v)
      exact (Scan.substitute_append_of_still hstill).trans
        (congrArg (rooted base found e ++ ·) (ih _ (hshorter source v hrefers.ne_nil hsplit) v rfl))
    | none =>
      cases hone : staticReference d (c :: t) with
      | some read =>
        obtain ⟨found, m⟩ := read
        obtain ⟨source, v, hsplit, -, hrefers⟩ := (staticReference_eq_some_iff hd).1 hone
        have hstill : Still (anyReference dirs) source v := by
          obtain ⟨a, x, rfl⟩ := List.exists_cons_of_ne_nil hrefers.ne_nil
          rw [hsplit] at hany
          exact still_cons.2 ⟨hany, (hrefers.still hd v).mono fun s => anyReference_of_not_quoted dirs⟩
        rw [hsplit, rootAll_append_of_refers hall (by simp) hrefers, rootAll,
          Scan.substitute_append_of_still hstill, ← rootAll, rootDirectory_append_of_refers hd hrefers,
          ih _ (hshorter source v hrefers.ne_nil hsplit) v rfl]
      | none =>
        have hkept : anyReference (dirs ++ [d]) (c :: t) = none := by
          rw [anyReference_eq_none_iff] at hany ⊢
          intro e he
          rcases List.mem_append.1 he with he | he
          · exact hany e he
          · rwa [List.mem_singleton.1 he]
        have hfront : staticReference d (c :: rootAll base dirs t) = none := by
          rw [Option.eq_none_iff_forall_not_mem]
          rintro ⟨found, m⟩ hread
          rw [staticReference_of_rootAll hdirs hd hread] at hone
          cases hone
        rw [rootAll, Scan.substitute_cons_of_none hany, ← rootAll, rootDirectory,
          Scan.substitute_cons_of_none hfront, ← rootDirectory, ih t.length (by rw [← hn]; simp) t rfl, rootAll,
          rootAll, Scan.substitute_cons_of_none hkept]

theorem rootAll_nil (base s : Text) : rootAll base [] s = s :=
  Scan.substitute_of_still fun _ _ _ _ => rfl

theorem foldl_rootDirectory (hbase : AbsoluteBase base) (hdirs : ∀ d ∈ dirs, SimpleName d)
    (hdirs' : ∀ d ∈ dirs', SimpleName d) (s : Text) :
    dirs'.foldl (fun s d => rootDirectory base d s) (rootAll base dirs s) = rootAll base (dirs ++ dirs') s := by
  induction dirs' generalizing dirs with
  | nil => simp
  | cons d dirs' ih =>
    have hd := hdirs' d List.mem_cons_self
    have hmore : ∀ e ∈ dirs', SimpleName e := fun e he => hdirs' e (List.mem_cons_of_mem d he)
    rw [List.foldl_cons, rootDirectory_rootAll hbase hdirs hd, ih (simpleNames_concat hdirs hd) hmore]
    simp

/-- No reference to any of the directories is left. -/
theorem marks_rootAll (hbase : AbsoluteBase base) (hdirs : ∀ d ∈ dirs, SimpleName d) (hd : d ∈ dirs) (s : Text) :
    Scan.marks (staticReference d) (rootAll base dirs s) = [] := by
  have hsimple := hdirs d hd
  have hfixed : rootDirectory base d (rootAll base dirs s) = rootAll base dirs s := by
    rw [rootDirectory_rootAll hbase hdirs hsimple]
    refine (rootAll_congr hdirs (fun e => ?_) base s).symm
    simp only [List.mem_append, List.mem_singleton]
    exact ⟨.inl, fun h => h.elim id fun h => h ▸ hd⟩
  rw [Scan.marks_eq_nil_iff]
  rcases still_or_first (staticReference d) (rootAll base dirs s) with h | ⟨x, c, t, read, hsplit, hread, hx⟩
  · exact h
  · -- the first reference left would be a rooted one
    obtain ⟨found, n⟩ := read
    obtain ⟨source, v, hsource, -, hrefers⟩ := (staticReference_eq_some_iff hsimple).1 hread
    rw [hsplit, rootDirectory, Scan.substitute_append_of_still hx, ← rootDirectory, hsource,
      rootDirectory_append_of_refers hsimple hrefers, List.append_cancel_left_eq] at hfixed
    have hnone := staticReference_of_base hbase hsimple hrefers.1 ('/' :: d ++ ['/'] ++ rootDirectory base d v)
    rw [hsource, ← hfixed] at hread
    simp only [rooted, List.append_assoc, List.cons_append] at hread hnone
    rw [hnone] at hread
    cases hread

end

/-! ## The pages of a build -/

theorem rewriteAddresses_eq (hbase : AbsoluteBase (normalizeBase base)) {dirs : List Text}
    (hdirs : ∀ d ∈ dirs, SimpleName d) (s : Text) :
    rewriteAddresses base dirs s = rootAll (normalizeBase base) dirs s := by
  have hfold := @foldl_rootDirectory _ [] _ hbase (List.forall_mem_nil _) hdirs s
  rw [rootAll_nil, List.nil_append] at hfold
  rw [rewriteAddresses, ← hfold]
  simp [hbase.isEmpty_eq]

theorem rewriteAddresses_of_marks {dirs : List Text} (h : ∀ d ∈ dirs, Scan.marks (staticReference d) s = [])
    (base : Text) : rewriteAddresses base dirs s = s := by
  have hfold : dirs.foldl (fun s d => rootDirectory (normalizeBase base) d s) s = s := by
    induction dirs with
    | nil => rfl
    | cons d dirs ih =>
      have hd : rootDirectory (normalizeBase base) d s = s :=
        Scan.substitute_of_still (Scan.marks_eq_nil_iff.1 (h d List.mem_cons_self))
      rw [List.foldl_cons, hd]
      exact ih fun e he => h e (List.mem_cons_of_mem d he)
  simp [rewriteAddresses, hfold]

/-! ## The shared stylesheet -/

theorem Refers.exists_last (hd : SimpleName d) (h : Refers found d source) : ∃ m, source = m ++ ['/'] ∧ '<' ∉ m := by
  obtain ⟨hproper, gap, gap', dot, hblank, hdot, rfl⟩ := h
  refine ⟨found.attr ++ (gap ++ '=' :: (gap' ++ found.quote :: (dot ++ d))), by simp, ?_⟩
  have hattr : '<' ∉ found.attr := by
    rcases attr_cases hproper.attr with h | h <;> rw [h] <;> decide
  have hquote : '<' ≠ found.quote := by
    rcases hproper.quote with h | h <;> rw [h] <;> decide
  have hgap : '<' ∉ gap := fun hc => absurd (hblank _ (List.mem_append_left _ hc)) (by decide)
  have hgap' : '<' ∉ gap' := fun hc => absurd (hblank _ (List.mem_append_right _ hc)) (by decide)
  have hdot' : '<' ∉ dot := by rcases hdot with rfl | rfl <;> decide
  simp [hattr, hquote, hgap, hgap', hdot', hd.bracket]

/-- No reference goes on into a line that holds a tag. -/
theorem still_of_still_tag (hd : SimpleName d) (h : Still (staticReference d) u ('<' :: v)) (w : Text) :
    Still (staticReference d) u ("    ".toList ++ '<' :: w) := by
  intro before c behind hu
  rw [Option.eq_none_iff_forall_not_mem]
  rintro ⟨found, n⟩ hread
  obtain ⟨source, rest, hsplit, -, hrefers⟩ := (staticReference_eq_some_iff hd).1 hread
  have hnone : ∀ y, c :: behind ≠ source ++ y := by
    intro y hy
    have hsome := (staticReference_eq_some_iff hd).2 ⟨source, y ++ '<' :: v, rfl, rfl, hrefers⟩
    rw [← List.append_assoc, ← hy, List.cons_append, h before c behind hu] at hsome
    cases hsome
  rw [← List.cons_append] at hsplit
  rcases List.append_eq_append_iff.1 hsplit with ⟨y, hy, htail⟩ | ⟨y, hy, -⟩
  · obtain ⟨m, hm, hbracket⟩ := hrefers.exists_last hd
    rcases List.eq_nil_or_concat y with rfl | ⟨y, z, rfl⟩
    · exact hnone [] (by simp [hy])
    · rw [hm, List.concat_eq_append, ← List.append_assoc] at hy
      obtain ⟨rfl, hz⟩ := List.append_inj' hy rfl
      cases hz
      rw [List.concat_eq_append, List.append_assoc] at htail
      have hplace := Text.append_cons_unique (by decide) (fun hc => hbracket (List.mem_append_right _ hc)) htail
      exact absurd hplace.2.1 (by decide)
  · exact hnone y hy

variable {site : Site}

theorem headLine_globalStyleTag (hbase : AbsoluteBase (normalizeBase base)) :
    Html.headLine (globalStyleTag site base) = "    <link rel=".toList ++ ("\"stylesheet".toList ++ ['"'] ++
      (" crossori".toList ++ ['g'] ++ ("in ".toList ++ ("href".toList ++ '=' :: '"' :: (normalizeBase base ++
        ("/assets/".toList ++ (site.globalStyleFile ++ ['"']) ++ ['>'])) ++ ['\n'])))) := by
  have hclose : "\">".toList = ['"', '>'] := rfl
  have hopen : "    ".toList ++ "<link rel=\"stylesheet\" crossorigin href=\"".toList = "    <link rel=".toList ++
      ("\"stylesheet".toList ++ ['"'] ++ (" crossori".toList ++ ['g'] ++ ("in ".toList ++ ("href".toList ++
        ['=', '"'])))) := by decide
  unfold Html.headLine globalStyleTag
  simp only [hbase.isEmpty_eq, hclose, Bool.false_eq_true, if_false]
  rw [← List.append_assoc, ← List.append_assoc, ← List.append_assoc, ← List.append_assoc, hopen]
  simp only [List.append_assoc, List.cons_append, List.nil_append]

theorem still_headLine (hbase : AbsoluteBase (normalizeBase base)) (hd : SimpleName d)
    (hstyle : '=' ∉ site.globalStyleName) (v : Text) :
    Still (staticReference d) (Html.headLine (globalStyleTag site base)) v := by
  have hquote : Stops '"' := ⟨by decide, by decide, by decide⟩
  have hletter : Stops 'g' := ⟨by decide, by decide, by decide⟩
  have hbracket : Stops '>' := ⟨by decide, by decide, by decide⟩
  have hproper : StaticReference.Proper ⟨"href".toList, '"'⟩ := ⟨by decide, .inl rfl⟩
  have hsign : '=' ∉ "/assets/".toList ++ (site.globalStyleFile ++ ['"']) := by
    have hfile : '=' ∉ site.globalStyleFile := by
      rw [Site.globalStyleFile, List.mem_append, not_or]
      exact ⟨hstyle, by decide⟩
    rw [List.mem_append, List.mem_append, not_or, not_or]
    exact ⟨by decide, hfile, by decide⟩
  have hmono : ∀ {x w : Text}, Still quoted? x w → Still (staticReference d) x w := fun h =>
    h.mono fun _ => staticReference_of_not_quoted d
  rw [headLine_globalStyleTag hbase]
  -- of all the letters with which an attribute may begin, one alone is followed by an equality sign
  exact still_append.2 ⟨hmono (still_of_free (by decide) _),
    still_append.2 ⟨hmono (still_of_stops hquote (by decide) _),
      still_append.2 ⟨hmono (still_of_stops hletter (by decide) _),
        still_append.2 ⟨hmono (still_of_free (by decide) _),
          still_append.2 ⟨still_based hbase hd hproper hbracket hsign _, hmono (still_of_free (by decide) _)⟩⟩⟩⟩⟩

/-- A link to the shared stylesheet is no reference to a directory. -/
theorem marks_ensureGlobalStyle (hbase : AbsoluteBase (normalizeBase base)) (hd : SimpleName d)
    (hstyle : '=' ∉ site.globalStyleName) (h : Scan.marks (staticReference d) s = []) :
    Scan.marks (staticReference d) (ensureGlobalStyle site base s) = [] := by
  rw [Scan.marks_eq_nil_iff] at h ⊢
  unfold ensureGlobalStyle
  split
  · exact h
  by_cases hkept : Html.appendToHead s (globalStyleTag site base) = s
  · rwa [hkept]
  obtain ⟨before, rest, rfl, hadded⟩ := Html.eq_of_appendToHead hkept
  obtain ⟨w, hline⟩ : ∃ w, Html.headLine (globalStyleTag site base) = "    ".toList ++ '<' :: w := ⟨_, rfl⟩
  have hclose : Html.closeHead = '<' :: "/head>".toList := rfl
  rw [hadded]
  simp only [List.append_assoc, still_append] at h ⊢
  refine ⟨?_, still_headLine hbase hd hstyle _, h.2⟩
  rw [hline, List.append_assoc, List.cons_append]
  have hbefore := h.1
  rw [hclose] at hbefore
  exact still_of_still_tag hd hbefore _

theorem infix_globalStyleTag (site : Site) (base : Text) : site.globalStyleFile <:+: globalStyleTag site base :=
  ⟨_, _, rfl⟩

theorem infix_headLine (tag : Text) : tag <:+: Html.headLine tag := ⟨_, _, rfl⟩

theorem ensureGlobalStyle_ensureGlobalStyle (site : Site) (base s : Text) :
    ensureGlobalStyle site base (ensureGlobalStyle site base s) = ensureGlobalStyle site base s := by
  by_cases hkept : ensureGlobalStyle site base s = s
  · rw [hkept, hkept]
  have hlinked : Text.contains site.globalStyleFile (ensureGlobalStyle site base s) = true := by
    unfold ensureGlobalStyle at hkept ⊢
    split at hkept
    · exact absurd rfl hkept
    · rename_i hnew
      rw [if_neg hnew, Text.contains_iff_infix]
      obtain ⟨before, rest, -, hadded⟩ := Html.eq_of_appendToHead hkept
      rw [hadded, List.append_assoc]
      exact ((infix_globalStyleTag site base).trans (infix_headLine _)).trans ⟨before, Html.closeHead ++ rest, rfl⟩
  rw [ensureGlobalStyle, if_pos hlinked]

/-- Where the names of the directories are simple and the base leads to the root of a host, rewriting the addresses of a
page is a single pass over it, in whatever order the directories come; no reference to any of them is left; and neither
a second rewriting nor a second rewriting and linking changes anything. -/
theorem rewriteAddresses_single_pass (site : Site) {dirs : List Text} (hbase : AbsoluteBase (normalizeBase base))
    (hdirs : ∀ d ∈ dirs, SimpleName d) (hstyle : '=' ∉ site.globalStyleName) (s : Text) :
    rewriteAddresses base dirs s = rootAll (normalizeBase base) dirs s ∧
      (∀ dirs', dirs'.Perm dirs → rewriteAddresses base dirs' s = rewriteAddresses base dirs s) ∧
      (∀ d ∈ dirs, Scan.marks (staticReference d) (rewriteAddresses base dirs s) = []) ∧
      rewriteAddresses base dirs (rewriteAddresses base dirs s) = rewriteAddresses base dirs s ∧
      ensureGlobalStyle site base
          (rewriteAddresses base dirs (ensureGlobalStyle site base (rewriteAddresses base dirs s))) =
        ensureGlobalStyle site base (rewriteAddresses base dirs s) := by
  have hmarks : ∀ d ∈ dirs, Scan.marks (staticReference d) (rewriteAddresses base dirs s) = [] := by
    intro d hd
    rw [rewriteAddresses_eq hbase hdirs]
    exact marks_rootAll hbase hdirs hd s
  refine ⟨rewriteAddresses_eq hbase hdirs s, fun dirs' hperm => ?_, hmarks, rewriteAddresses_of_marks hmarks base, ?_⟩
  · have hdirs' : ∀ d ∈ dirs', SimpleName d := fun d hd => hdirs d (hperm.mem_iff.1 hd)
    rw [rewriteAddresses_eq hbase hdirs', rewriteAddresses_eq hbase hdirs]
    exact rootAll_congr hdirs' (fun d => hperm.mem_iff) _ s
  · have hlinked : ∀ d ∈ dirs, Scan.marks (staticReference d)
        (ensureGlobalStyle site base (rewriteAddresses base dirs s)) = [] :=
      fun d hd => marks_ensureGlobalStyle hbase (hdirs d hd) hstyle (hmarks d hd)
    rw [rewriteAddresses_of_marks hlinked, ensureGlobalStyle_ensureGlobalStyle]

/-- A page with two references, to different directories. -/
def twoReferences : Text := "<a href=\"./assets/a.pdf\"><img src = 'imgs/a.png'>".toList

theorem rewriteAddresses_single_pass_docs :
    (AbsoluteBase (normalizeBase "/docs/".toList) ∧ (∀ d ∈ ["assets".toList, "imgs".toList], SimpleName d) ∧
        '=' ∉ (Site.usual (.ofLocation [])).globalStyleName) ∧
      rewriteAddresses "/docs/".toList ["assets".toList, "imgs".toList] twoReferences =
        "<a href=\"/docs/assets/a.pdf\"><img src='/docs/imgs/a.png'>".toList ∧
      rewriteAddresses "/docs/".toList ["imgs".toList, "assets".toList] twoReferences =
        "<a href=\"/docs/assets/a.pdf\"><img src='/docs/imgs/a.png'>".toList := by
  have hbase : AbsoluteBase (normalizeBase "/docs/".toList) := ⟨.inl (by decide), by decide⟩
  have hdirs : ∀ d ∈ ["assets".toList, "imgs".toList], SimpleName d := by
    intro d hd
    simp only [List.mem_cons, List.not_mem_nil, or_false] at hd
    rcases hd with rfl | rfl
    · exact simpleName_of_alphanum (by decide) (by decide)
    · exact simpleName_of_alphanum (by decide) (by decide)
  have hstyle : '=' ∉ (Site.usual (.ofLocation [])).globalStyleName := by decide
  obtain ⟨hpass, hperm, -⟩ :=
    rewriteAddresses_single_pass (Site.usual (.ofLocation [])) hbase hdirs hstyle twoReferences
  have hrooted : rootAll (normalizeBase "/docs/".toList) ["assets".toList, "imgs".toList] twoReferences =
      "<a href=\"/docs/assets/a.pdf\"><img src='/docs/imgs/a.png'>".toList := by cbv
  refine ⟨⟨hbase, hdirs, hstyle⟩, hpass.trans hrooted, ?_⟩
  rw [hperm _ (List.Perm.swap _ _ _)]
  exact hpass.trans hrooted

end Sitewright.Build
