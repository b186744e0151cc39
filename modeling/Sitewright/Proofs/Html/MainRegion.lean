import Sitewright.Layout
import Sitewright.Proofs.Text.Scanning
/-!
# The main region of a shell

A main region begins with an opening tag and ends at the next end tag, both in any letter case. A page is merged into a
shell in two steps: its head goes to the end of the shell's head, and then the first main region is replaced. Where the
shell's head ends in front of its main region, the second step meets the page's head first. It passes through if no
opening tag of a main region is begun in it; if one is, the region that is replaced begins there, as there is always an
end of it further on.

* `Html.Spells`, `Html.Holds`: a word in any letter case, and a text that holds one.
* `Layout.Slots`: the parts of a shell around the end of its head and its main region.

Main statements: `Html.main_isSome_append`, `Layout.Slots.still_iff`, `Layout.merge_fills_slots_iff`.
-/
set_option autoImplicit false

namespace Sitewright

open Scan (Still still_append still_of_forall)

namespace Html

variable {word w s rest u v : Text}

/-! ## Words in any letter case -/

/-- A text is a word in some letter case. -/
def Spells (word w : Text) : Prop := List.Forall₂ (fun a c => isLetter a c = true) word w

/-- A text holds a word in some letter case. -/
def Holds (word s : Text) : Prop := ∃ x w y, Spells word w ∧ s = x ++ (w ++ y)

theorem Spells.exists_letter (h : Spells word w) {c : Char} (hc : c ∈ w) : ∃ a ∈ word, isLetter a c = true := by
  induction h with
  | nil => cases hc
  | @cons a d word w hletter h ih =>
    rcases List.mem_cons.1 hc with rfl | hc
    · exact ⟨a, List.mem_cons_self, hletter⟩
    · obtain ⟨b, hb, hletter⟩ := ih hc
      exact ⟨b, List.mem_cons_of_mem a hb, hletter⟩

theorem afterWord?_append (h : Spells word w) (rest : Text) : afterWord? word (w ++ rest) = some rest := by
  induction h with
  | nil => rfl
  | cons hletter h ih => simp [afterWord?, hletter, ih]

theorem afterWord?_eq_some_iff : afterWord? word s = some rest ↔ ∃ w, Spells word w ∧ s = w ++ rest := by
  constructor
  · intro h
    induction word generalizing s with
    | nil =>
      cases h
      exact ⟨[], .nil, rfl⟩
    | cons a word ih =>
      cases s with
      | nil => cases h
      | cons c s =>
        rw [afterWord?] at h
        split at h
        · rename_i hletter
          obtain ⟨w, hw, rfl⟩ := ih h
          exact ⟨c :: w, .cons hletter hw, rfl⟩
        · cases h
  · rintro ⟨w, hw, rfl⟩
    exact afterWord?_append hw rest

theorem not_holds_of_still (hne : word ≠ []) (h : Still (afterWord? word) u v) : ¬ Holds word u := by
  rintro ⟨x, w, y, hw, rfl⟩
  cases hw with
  | nil => exact hne rfl
  | @cons a c word w hletter hw =>
    have hnone := h x c (w ++ y) rfl
    have hsome := afterWord?_append (.cons hletter hw) (y ++ v)
    simp only [List.append_assoc, List.cons_append] at hnone hsome
    rw [hnone] at hsome
    cases hsome

/-- A stretch that does not hold a word is still in front of a character that is no letter of the word. -/
theorem still_of_not_holds {d : Char} (hd : ∀ a ∈ word, isLetter a d = false) (h : ¬ Holds word u) :
    Still (afterWord? word) u (d :: v) := by
  rintro before c behind rfl
  rw [Option.eq_none_iff_forall_not_mem]
  intro rest hrest
  obtain ⟨w, hw, hsplit⟩ := afterWord?_eq_some_iff.1 hrest
  rw [← List.cons_append] at hsplit
  rcases List.append_eq_append_iff.1 hsplit with ⟨tail, rfl, htail⟩ | ⟨tail, hbehind, -⟩
  · cases tail with
    | nil => exact h ⟨before, c :: behind, [], by simpa using hw, by simp⟩
    | cons e tail =>
      -- the word would go on with the character behind the stretch
      obtain ⟨rfl, -⟩ := List.cons.inj htail
      obtain ⟨a, ha, hletter⟩ := hw.exists_letter (by simp : d ∈ c :: behind ++ d :: tail)
      rw [hd a ha] at hletter
      cases hletter
  · exact h ⟨before, w, tail, hw, by rw [hbehind]⟩

theorem cutAtWord_isSome_iff {passed : Text} (hne : word ≠ []) :
    (cutAtWord word passed s).isSome = true ↔ Holds word s := by
  induction s generalizing passed with
  | nil =>
    simp only [cutAtWord, Option.isSome_none, Bool.false_eq_true, false_iff]
    rintro ⟨x, w, y, hw, hnil⟩
    simp only [List.nil_eq, List.append_eq_nil_iff] at hnil
    rw [hnil.2.1] at hw
    cases hw
    exact hne rfl
  | cons c s ih =>
    rw [cutAtWord]
    cases hafter : afterWord? word (c :: s) with
    | some rest =>
      obtain ⟨w, hw, hsplit⟩ := afterWord?_eq_some_iff.1 hafter
      simp only [Option.isSome_some, true_iff]
      exact ⟨[], w, rest, hw, hsplit⟩
    | none =>
      simp only [ih]
      constructor
      · rintro ⟨x, w, y, hw, rfl⟩
        exact ⟨c :: x, w, y, hw, rfl⟩
      · rintro ⟨x, w, y, hw, hsplit⟩
        cases x with
        | nil =>
          rw [List.nil_append] at hsplit
          rw [hsplit, afterWord?_append hw] at hafter
          cases hafter
        | cons d x =>
          obtain ⟨-, rfl⟩ := List.cons.inj hsplit
          exact ⟨x, w, y, hw, rfl⟩

/-! ## Main regions -/

def mainOpening : Text := '<' :: "main".toList

theorem mainOpening_ne_nil : mainOpening ≠ [] := List.cons_ne_nil _ _

def mainEnd : Text := "</".toList ++ "main".toList ++ ['>']

theorem exists_dropWhile (a x : Text) : ∃ y, (a ++ '>' :: x).dropWhile (· ≠ '>') = '>' :: (y ++ x) := by
  induction a with
  | nil => exact ⟨[], by simp⟩
  | cons c a ih =>
    by_cases hc : c = '>'
    · subst hc
      exact ⟨a ++ ['>'], by simp⟩
    · obtain ⟨y, hy⟩ := ih
      exact ⟨y, by simpa [List.dropWhile_cons, hc] using hy⟩

/-- There is a main region where an opening tag begins and ends, and an end tag stands further on. -/
theorem main_isSome_iff : (main s).isSome = true ↔
    ∃ w a x, Spells mainOpening w ∧ s = w ++ (a ++ '>' :: x) ∧ Holds mainEnd x := by
  have hend : mainEnd ≠ [] := by simp [mainEnd]
  have hopening : '<' :: "main".toList = mainOpening := rfl
  have hending : "</".toList ++ "main".toList ++ ['>'] = mainEnd := rfl
  simp only [main, region, hopening, hending]
  constructor
  · intro h
    cases hafter : afterWord? mainOpening s with
    | none => simp [hafter] at h
    | some inTag =>
      obtain ⟨w, hw, rfl⟩ := afterWord?_eq_some_iff.1 hafter
      simp only [hafter] at h
      cases hdrop : inTag.dropWhile (· ≠ '>') with
      | nil =>
        simp only [hdrop] at h
        cases h
      | cons c behind =>
        obtain rfl : c = '>' := by
          have hne : inTag.dropWhile (· ≠ '>') ≠ [] := hdrop ▸ List.cons_ne_nil c behind
          have hhead := List.head_dropWhile_not _ hne
          simpa only [hdrop, List.head_cons, decide_eq_false_iff_not, not_not] using hhead
        simp only [hdrop] at h
        cases hcut : cutAtWord mainEnd [] behind with
        | none => simp [hcut] at h
        | some found =>
          refine ⟨w, inTag.takeWhile (· ≠ '>'), behind, hw, ?_, (cutAtWord_isSome_iff hend).1 (by rw [hcut]; rfl)⟩
          rw [← hdrop, List.takeWhile_append_dropWhile]
  · rintro ⟨w, a, x, hw, rfl, hholds⟩
    -- the tag may end before that bracket, and then more stands behind it
    obtain ⟨y, hy⟩ := exists_dropWhile a x
    have hbehind : Holds mainEnd (y ++ x) := by
      obtain ⟨z, e, t, he, rfl⟩ := hholds
      exact ⟨y ++ z, e, t, he, by simp⟩
    obtain ⟨found, hfound⟩ := Option.isSome_iff_exists.1 ((@cutAtWord_isSome_iff _ _ [] hend).2 hbehind)
    simp only [afterWord?_append hw, hy, hfound, Option.isSome_some]

/-- An opening tag that is begun in front of a main region begins one as well, at the latest with the end of that. -/
theorem main_isSome_append (hv : (main v).isSome = true) (hu : (afterWord? mainOpening (u ++ v)).isSome = true) :
    (main (u ++ v)).isSome = true := by
  obtain ⟨w, a, x, hw, rfl, hend⟩ := main_isSome_iff.1 hv
  obtain ⟨rest, hrest⟩ := Option.isSome_iff_exists.1 hu
  obtain ⟨w', hw', hsplit⟩ := afterWord?_eq_some_iff.1 hrest
  rw [← List.append_assoc] at hsplit
  have hlen : w'.length ≤ (u ++ w).length := by
    rw [List.length_append, ← hw.length_eq, ← hw'.length_eq]
    omega
  obtain ⟨y, hy⟩ := List.prefix_of_prefix_length_le ⟨rest, hsplit.symm⟩ (List.prefix_append (u ++ w) _) hlen
  refine main_isSome_iff.2 ⟨w', y ++ a, x, hw', ?_, hend⟩
  rw [← List.append_assoc, ← hy]
  simp

theorem still_main (h : Still (afterWord? mainOpening) u v) : Still main u v := by
  intro before c behind hu
  rw [← Option.not_isSome_iff_eq_none, main_isSome_iff]
  rintro ⟨w, a, x, hw, hsplit, -⟩
  have hnone := h before c behind hu
  rw [hsplit, afterWord?_append hw] at hnone
  cases hnone

end Html

namespace Layout

open Html (Holds mainOpening)

/-! ## The parts of a shell -/

/-- The parts of a shell whose head ends in front of its main region: the first end of a head stands behind `front`, and
the first main region behind all that comes in front of `region`. -/
structure Slots (shell front close between region tail : Text) : Prop where
  shell_eq : shell = front ++ (close ++ (between ++ (region ++ tail)))
  headEnd : Scan.first? Html.headEnd shell = some (front, (), between ++ (region ++ tail))
  main : ∃ inner, Scan.first? Html.main shell = some (front ++ (close ++ between), inner, tail)

def mainSlot (body : Text) : Text := "<main>\n        ".toList ++ body ++ "\n    </main>".toList

section

variable {shell front close between region tail head : Text}

/-- In front of its main region a shell begins no other one, closed or not. -/
theorem Slots.still (h : Slots shell front close between region tail) :
    (Html.main (region ++ tail)).isSome = true ∧
      Still (Html.afterWord? mainOpening) (front ++ (close ++ between)) (region ++ tail) := by
  obtain ⟨inner, hfirst⟩ := h.main
  obtain ⟨c, t, n, hsplit, hmain, -, hstill⟩ := Scan.first?_eq_some_iff.1 hfirst
  have hregion : region ++ tail = c :: t := by
    rw [h.shell_eq] at hsplit
    simpa using hsplit
  rw [hregion]
  have hsome : (Html.main (c :: t)).isSome = true := by rw [hmain]; rfl
  refine ⟨hsome, fun before d behind hu => ?_⟩
  rw [← Option.not_isSome_iff_eq_none]
  intro hopening
  have hregion' := Html.main_isSome_append (u := d :: behind) hsome hopening
  have hnone := hstill before d behind hu
  rw [List.cons_append, hnone] at hregion'
  cases hregion'

theorem Slots.withHead (h : Slots shell front close between region tail) (new : Text) :
    Html.replaceFirst Html.headEnd new shell = front ++ (new ++ between) ++ (region ++ tail) := by
  rw [Html.replaceFirst, h.headEnd]
  simp

theorem not_letter_of_blank {c : Char} (hc : c = ' ' ∨ c = '\n') :
    ∀ a ∈ mainOpening, Html.isLetter a c = false := by
  rcases hc with rfl | rfl <;> simp [mainOpening, Html.isLetter]

theorem opening_none {c : Char} (hc : Html.isLetter '<' c = false) (s : Text) :
    Html.afterWord? mainOpening (c :: s) = none := by
  rw [mainOpening, Html.afterWord?, hc]
  rfl

theorem still_closeHead (v : Text) : Still (Html.afterWord? mainOpening) Html.closeHead v := by
  have hsplit : Html.closeHead = '<' :: "/head>".toList := by decide
  have hrest : ∀ c ∈ "/head>".toList, Html.isLetter '<' c = false := by simp [Html.isLetter]
  rw [hsplit, Scan.still_cons]
  exact ⟨rfl, still_of_forall (fun c hc => opening_none (hrest c hc)) v⟩

/-- With a page's head at the end of the shell's, a main region is begun in front of the shell's own if and only if the
page's head holds an opening tag. -/
theorem Slots.still_iff (h : Slots shell front close between region tail) :
    Still (Html.afterWord? mainOpening) (front ++ (Html.headLine head ++ Html.closeHead ++ between)) (region ++ tail) ↔
      ¬ Holds mainOpening head := by
  have hspaces : ∀ v, Still (Html.afterWord? mainOpening) "    ".toList v := by
    have hnone : ∀ c ∈ "    ".toList, Html.isLetter '<' c = false := by simp [Html.isLetter]
    exact still_of_forall fun c hc => opening_none (hnone c hc)
  have hbreak : ∀ v, Still (Html.afterWord? mainOpening) ['\n'] v := by
    have hnone : ∀ c ∈ ['\n'], Html.isLetter '<' c = false := by simp [Html.isLetter]
    exact still_of_forall fun c hc => opening_none (hnone c hc)
  obtain ⟨hfront, hrest⟩ := still_append.1 h.still.2
  have hbetween := (still_append.1 hrest).2
  rw [Html.headLine]
  simp only [still_append, hspaces, hbreak, still_closeHead, hbetween, true_and, and_true]
  constructor
  · rintro ⟨-, hhead⟩
    exact Html.not_holds_of_still Html.mainOpening_ne_nil hhead
  · intro hhead
    exact ⟨Html.still_of_not_holds (not_letter_of_blank (.inl rfl)) (Html.not_holds_of_still Html.mainOpening_ne_nil hfront),
      Html.still_of_not_holds (not_letter_of_blank (.inr rfl)) hhead⟩

/-! ## Merging -/

theorem merge_of_ne_nil (hhead : head ≠ []) (body : Text) : merge shell head body =
    Html.replaceFirst Html.main (mainSlot body)
      (Html.replaceFirst Html.headEnd (Html.headLine head ++ Html.closeHead) shell) := by
  have hempty : head.isEmpty = false := List.isEmpty_eq_false_iff.2 hhead
  simp only [merge, hempty]
  rfl

theorem mainSlot_eq (body : Text) :
    mainSlot body = '<' :: (("main>\n        ".toList ++ body) ++ "\n    </main>".toList) := by
  have hopening : "<main>\n        ".toList = '<' :: "main>\n        ".toList := by decide
  exact congrArg (· ++ body ++ "\n    </main>".toList) hopening

theorem append_ne_append_cons {c : Char} {u g s t : Text} (hu : c ∉ u) (hlen : g.length < u.length) :
    u ++ s ≠ g ++ c :: t := by
  intro h
  have hplace := congrArg (fun l => l[g.length]?) h
  simp only [List.getElem?_append_left hlen, List.getElem?_append_right le_rfl, Nat.sub_self,
    List.getElem?_cons_zero] at hplace
  exact hu (List.mem_of_getElem? hplace)

/-- Where a page's head holds an opening tag, a region that begins in that head is replaced. -/
theorem Slots.exists_first_main (h : Slots shell front close between region tail) (hholds : Holds mainOpening head) :
    ∃ before inner rest gap more, gap ≠ [] ∧
      Scan.first? Html.main (front ++ (Html.headLine head ++ Html.closeHead ++ between) ++ (region ++ tail)) =
          some (before, inner, rest) ∧
        front ++ (Html.headLine head ++ Html.closeHead ++ between) = before ++ (gap ++ '<' :: more) := by
  obtain ⟨x, w, y, hw, rfl⟩ := hholds
  have hword : w ≠ [] := by
    rintro rfl
    cases hw
  obtain ⟨c, w, rfl⟩ := List.exists_cons_of_ne_nil hword
  have hclose : Html.closeHead = '<' :: "/head>".toList := by decide
  -- all from the opening tag on is an opening tag in front of the shell's region
  have hplace : front ++ (Html.headLine (x ++ (c :: w ++ y)) ++ Html.closeHead ++ between) =
      (front ++ ("    ".toList ++ x)) ++ (c :: w ++ (y ++ ('\n' :: '<' :: ("/head>".toList ++ between)))) := by
    simp [Html.headLine, hclose]
  obtain ⟨found, hfound⟩ := Option.isSome_iff_exists.1 (Html.main_isSome_append
    (u := c :: w ++ (y ++ ('\n' :: '<' :: ("/head>".toList ++ between)))) h.still.1
    (by rw [List.append_assoc, Html.afterWord?_append hw]; rfl))
  obtain ⟨before, inner, rest, hfirst, hle⟩ := Scan.exists_first (x := front ++ ("    ".toList ++ x)) hfound
  obtain ⟨d, t, n, hsplit, -⟩ := Scan.first?_eq_some_iff.1 hfirst
  obtain ⟨z, hz⟩ := List.prefix_of_prefix_length_le ⟨_, hsplit.symm⟩ (List.prefix_append _ _) hle
  refine ⟨before, inner, rest, z ++ (c :: w ++ (y ++ ['\n'])), "/head>".toList ++ between, by simp, ?_, ?_⟩
  · rw [hplace, List.append_assoc]
    exact hfirst
  · rw [hplace, ← hz]
    simp

/-- Where the head of a shell ends in front of its main region, a page is merged into these two parts of the shell,
whatever its body is, if and only if the page's head holds no opening tag of a main region, in any letter case. -/
theorem merge_fills_slots_iff (h : Slots shell front close between region tail) (hhead : head ≠ []) :
    (∀ body, merge shell head body =
      front ++ (Html.headLine head ++ Html.closeHead) ++ between ++ mainSlot body ++ tail) ↔
      ¬ Holds mainOpening head := by
  simp only [merge_of_ne_nil hhead, h.withHead]
  constructor
  · intro hall hholds
    obtain ⟨before, inner, rest, gap, more, hgap, hfirst, hplace⟩ := h.exists_first_main hholds
    obtain ⟨g, gap, rfl⟩ := List.exists_cons_of_ne_nil hgap
    -- a body that is longer than what stands between the two places
    have hbody := hall (List.replicate gap.length 'x')
    have hshift : front ++ (Html.headLine head ++ Html.closeHead) ++ between = before ++ (g :: gap ++ '<' :: more) := by
      rw [← hplace]
      simp
    rw [Html.replaceFirst, hfirst, hshift] at hbody
    simp only [List.append_assoc, List.append_cancel_left_eq] at hbody
    have hfree : '<' ∉ "main>\n        ".toList ++ List.replicate gap.length 'x' := by simp
    rw [mainSlot_eq] at hbody
    simp only [List.cons_append, List.append_assoc _ "\n    </main>".toList] at hbody
    exact append_ne_append_cons hfree (by simp; omega) (List.cons.inj hbody).2
  · intro hholds body
    obtain ⟨inner, hfirst⟩ := h.main
    obtain ⟨c, t, n, hsplit, hmain, hrest, -⟩ := Scan.first?_eq_some_iff.1 hfirst
    have hregion : region ++ tail = c :: t := by
      rw [h.shell_eq] at hsplit
      simpa using hsplit
    have hstill := Html.still_main (h.still_iff.2 hholds)
    rw [hregion] at hstill ⊢
    rw [Html.replaceFirst, Scan.first?_eq_some_iff.2 ⟨c, t, n, rfl, hmain, hrest, hstill⟩]
    simp

end

/-- A shell with an empty head and an empty main region. -/
def emptyShell : Text := "<html><head></head><body><main></main></body></html>".toList

theorem slots_emptyShell : Slots emptyShell "<html><head>".toList "</head>".toList "<body>".toList
    "<main></main>".toList "</body></html>".toList where
  shell_eq := by decide
  headEnd := by cbv
  main := ⟨[], by cbv⟩

theorem merge_fills_slots_titled :
    (Slots emptyShell "<html><head>".toList "</head>".toList "<body>".toList "<main></main>".toList
        "</body></html>".toList ∧ "<title>Nav</title>".toList ≠ []) ∧
      ∀ body, merge emptyShell "<title>Nav</title>".toList body =
        "<html><head>    <title>Nav</title>\n</head><body>".toList ++ mainSlot body ++ "</body></html>".toList := by
  have hne : "<title>Nav</title>".toList ≠ [] := by decide
  have hfree : ¬ Holds mainOpening "<title>Nav</title>".toList := by
    rw [← @Html.cutAtWord_isSome_iff _ _ [] Html.mainOpening_ne_nil]
    decide
  refine ⟨⟨slots_emptyShell, hne⟩, fun body => ?_⟩
  rw [(merge_fills_slots_iff slots_emptyShell hne).2 hfree body]
  have hfront : "<html><head>".toList ++ (Html.headLine "<title>Nav</title>".toList ++ Html.closeHead) ++
      "<body>".toList = "<html><head>    <title>Nav</title>\n</head><body>".toList := by decide
  rw [hfront]

def commentedHead : Text := "<!-- fills <main> -->".toList

/-- With that head, all from the comment's tag on is replaced, the end of the head with it. -/
theorem merge_swallows_head :
    (Slots emptyShell "<html><head>".toList "</head>".toList "<body>".toList "<main></main>".toList
        "</body></html>".toList ∧ commentedHead ≠ []) ∧
      merge emptyShell commentedHead "<p>new</p>".toList =
        "<html><head>    <!-- fills <main>\n        <p>new</p>\n    </main></body></html>".toList ∧
      merge emptyShell commentedHead "<p>new</p>".toList ≠
        "<html><head>".toList ++ (Html.headLine commentedHead ++ Html.closeHead) ++ "<body>".toList ++
          mainSlot "<p>new</p>".toList ++ "</body></html>".toList := by
  have hmerge : merge emptyShell commentedHead "<p>new</p>".toList =
      "<html><head>    <!-- fills <main>\n        <p>new</p>\n    </main></body></html>".toList := by cbv
  refine ⟨⟨slots_emptyShell, by decide⟩, hmerge, ?_⟩
  rw [hmerge]
  decide

end Layout
end Sitewright
