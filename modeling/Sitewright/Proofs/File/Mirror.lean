import Sitewright.Proofs.File.Persistence
/-!
# Copying onto a copy

Copying a directory makes a directory for each one of its source. Where each has its counterpart already, as when the
directory is copied a second time, a copy makes no directory: it puts files where files stand or nothing does.

* `Mirrored`: every directory below a location has its counterpart below another one.
* `Landing`: the locations that a copy may write to then.

Main statements: `mirrored_copyTree` and `changes_copyTree_of_mirrored`.
-/
set_option autoImplicit false

namespace Sitewright.Disk

open FileTree (entryAt nameLimit)

variable {S T : Location → Prop} {d d' : Disk} {loc src tgt top : Location} {p source : Path}

/-- Every directory at or below a location has its counterpart at or below another one. -/
def Mirrored (src tgt : Location) (d : Disk) : Prop :=
  ∀ rel, PlainNames rel → d.isDirectory (.ofLocation (src ++ rel)) = .ok true →
    d.isDirectory (.ofLocation (tgt ++ rel)) = .ok true

theorem Mirrored.child (h : Mirrored src tgt d) {name : Text} (hname : Path.PlainName name) :
    Mirrored (src ++ [name]) (tgt ++ [name]) d := by
  intro rel hrel hdir
  rw [List.append_assoc] at hdir ⊢
  exact h _ (List.forall_mem_cons.2 ⟨hname, hrel⟩) hdir

/-! ## Changes of files only -/

theorem Changes.isDirectory_iff (h : Changes Nowhere S d d') :
    d'.isDirectory p = .ok true ↔ d.isDirectory p = .ok true :=
  isDirectory_congr (fun loc => h.directory loc id) h.here

theorem Changes.mirrored (h : Changes Nowhere S d d') (hd : Mirrored src tgt d) : Mirrored src tgt d' :=
  fun rel hrel hdir => h.isDirectory_iff.2 (hd rel hrel (h.isDirectory_iff.1 hdir))

theorem changes_copyInto_file (htgt : PlainNames tgt) (hS : S tgt) (h : d.copyInto source (.ofLocation tgt) = .ok d') :
    Changes T S d d' := by
  obtain ⟨q, bytes, stamp, hp, hne, rfl⟩ := exists_of_copyInto h
  obtain rfl : q.location = tgt := location_ofLocation htgt hp
  exact changes_putFile htgt hne hS bytes stamp

theorem changes_copyFile_file {name : Text} (htgt : PlainNames tgt) (hname : Path.PlainName name)
    (hS : ∀ l, tgt <+: l → S l) : Changes T S d (d.copyFile (source.child name) (.ofLocation tgt)).1 := by
  rcases copyFile_child_cases d source tgt name with hdisk | ⟨inside, rfl | rfl, hcopy⟩
  · rw [hdisk]
    exact .refl _ _ d
  · exact changes_copyInto_file htgt (hS _ (List.prefix_refl _)) hcopy
  · exact changes_copyInto_file (htgt.child hname) (hS _ (List.prefix_append _ _)) hcopy

/-! ## Directories that are there -/

theorem ensureDirectories_of_isDirectory (h : d.isDirectory p = .ok true) : d.ensureDirectories p = (d, .ok ()) := by
  obtain ⟨l, hp⟩ := isDirectory_eq_true.1 h
  have hmissing : ∀ path, d.makeDirectory p ≠ .error (.flaw .missing path) := by
    intro path hm
    rw [makeDirectory, hp] at hm
    cases hm
  rw [ensureDirectories_of_not_missing hmissing, ensureDirectory_directory hp]

theorem copyEntry_of_directory {target : Path} {depth : Nat} {name : Text} {state : Disk × List CopyNote}
    (h : state.1.isDirectory (source.child name) = .ok true) :
    (copyEntry source target depth state name).1 =
      (state.1.copyTreeTo (source.child name) (target.child name) depth).1 := by
  unfold copyEntry
  simp only [h]
  rcases state.1.copyTreeTo (source.child name) (target.child name) depth with ⟨d₁, _ | _⟩
  · rename_i problem
    cases problem <;> rfl
  · rfl

/-- The locations at or below the counterpart of something that a directory holds. -/
def Landing (src tgt : Location) (d : Disk) : Location → Prop :=
  fun l => ∃ name e, entryAt (src ++ [name]) d.tree = some e ∧ tgt ++ [name] <+: l

theorem Landing.below {l : Location} (h : Landing src tgt d l) : tgt <+: l := by
  obtain ⟨name, e, -, hl⟩ := h
  exact (List.prefix_append _ _).trans hl

/-- A copy onto directories that are all there changes files only. -/
theorem changes_copyTreeTo_of_mirrored (hsrc : PlainNames src) (htgt : PlainNames tgt) (depth : Nat)
    (hsound : FileTree.Sound d.tree) (h : Mirrored src tgt d) :
    Changes Nowhere (Landing src tgt d) d (d.copyTreeTo (.ofLocation src) (.ofLocation tgt) depth).1 := by
  induction depth generalizing d src tgt with
  | zero => exact .refl _ _ d
  | succ depth ih =>
    rw [copyTreeTo_succ]
    cases hlist : d.list (.ofLocation src) with
    | error e => exact .refl _ _ d
    | ok names =>
      have hroot : d.isDirectory (.ofLocation tgt) = .ok true := by
        have hhere := h [] (fun _ hpart => absurd hpart List.not_mem_nil)
        rw [List.append_nil, List.append_nil] at hhere
        exact hhere (isDirectory_of_list hlist)
      simp only [ensureDirectories_of_isDirectory hroot]
      refine changes_foldl (I := fun d => FileTree.Sound d.tree ∧ Mirrored src tgt d)
        (fun _ _ hd hI => ⟨hd.sound hI.1, hd.mirrored hI.2⟩) (fun name hname state hstate => ?_) (d, []) ⟨hsound, h⟩
      have hplain := plain_of_list hsound hlist name hname
      obtain ⟨e, he⟩ := (mem_list_iff hsrc hlist).1 hname
      have hbelow : ∀ l, tgt ++ [name] <+: l → Landing src tgt d l := fun l hl => ⟨name, e, he, hl⟩
      by_cases hdir : state.1.isDirectory ((Path.ofLocation src).child name) = .ok true
      · rw [copyEntry_of_directory hdir]
        exact (ih (hsrc.child hplain) (htgt.child hplain) hstate.1 (hstate.2.child hplain)).mono
          (fun _ hc => hc) fun l hl => .inr (hbelow l hl.below)
      · rw [disk_copyEntry_of_file hdir]
        exact changes_copyFile_file (htgt.child hplain) hplain hbelow

theorem changes_copyTree_of_mirrored (hsrc : PlainNames src) (htgt : PlainNames tgt) (hsound : FileTree.Sound d.tree)
    (h : Mirrored src tgt d) :
    Changes Nowhere (Landing src tgt d) d (d.copyTree (.ofLocation src) (.ofLocation tgt)).1 :=
  changes_copyTreeTo_of_mirrored hsrc htgt _ hsound h

/-! ## Directories that are made -/

theorem isDirectory_above {rest : List Text} (hplain : PlainNames (loc ++ rest))
    (h : d.isDirectory (.ofLocation (loc ++ rest)) = .ok true) : d.isDirectory (.ofLocation loc) = .ok true := by
  induction rest using List.reverseRecOn with
  | nil => rwa [List.append_nil] at h
  | append_singleton rest name ih =>
    rw [← List.append_assoc] at h hplain
    have hname : Path.PlainName name := hplain name (List.mem_append_right _ (List.mem_singleton_self _))
    refine ih (hplain.of_prefix (List.prefix_append _ _)) ?_
    obtain ⟨l, hp⟩ := isDirectory_eq_true.1 h
    exact isDirectory_of_place_child hname.not_dots hname.noNul hp

theorem isDirectory_ensured (hloc : PlainNames loc) (h : d.ensureDirectory (.ofLocation loc) = .ok d') :
    d'.isDirectory (.ofLocation loc) = .ok true := by
  have hretains : Retains Nowhere d d' := retains_ensureDirectory h
  unfold ensureDirectory at h
  split at h
  · rename_i made hmade
    cases h
    unfold makeDirectory at hmade
    split at hmade
    · rename_i l hp
      cases hmade
      obtain rfl : l = loc := location_ofLocation hloc hp
      rcases List.eq_nil_or_concat' l with rfl | ⟨dir, name, rfl⟩
      · cases (walk_of_place hp).2
      · have hname : Path.PlainName name := hloc name (List.mem_append_right _ (List.mem_singleton_self _))
        have hdir : PlainNames dir := hloc.of_prefix (List.prefix_append _ _)
        have habove := hretains.isDirectory hdir (spares_nowhere dir)
          (isDirectory_of_place_child (p := .ofLocation dir) hname.not_dots hname.noNul hp)
        have hsize : ¬ Utf8.size name > nameLimit :=
          Nat.not_lt.2 (short_of_place hp name (List.mem_append_right _ (List.mem_singleton_self _)))
        refine isDirectory_eq_true.2 ⟨dir ++ [name], ?_⟩
        rw [place_in_directory hname hdir habove hsize, FileTree.entryAt_put_self]
    · cases hmade
    · cases hmade
  · split at h
    · rename_i hdir
      cases h
      exact hdir
    · cases h
    · cases h
  · cases h

theorem isDirectory_of_ensured (hloc : PlainNames loc) (h : d.ensureDirectories (.ofLocation loc) = (d', .ok ())) :
    d'.isDirectory (.ofLocation loc) = .ok true := by
  obtain ⟨d₁, -, hlast⟩ := exists_of_ensureDirectories (T := Nowhere) h
  exact isDirectory_ensured hloc hlast

/-! ## Notes of a copy -/

theorem copyTreeTo_notes_ne_nil {target : Path} {depth : Nat} {notes : List CopyNote}
    (h : d.copyTreeTo source target depth = (d', .error (.notes notes))) : notes ≠ [] := by
  cases depth with
  | zero => cases h
  | succ depth =>
    rw [copyTreeTo_succ] at h
    split at h
    · cases h
    · split at h
      · cases h
      · obtain ⟨-, h⟩ := Prod.mk.inj h
        split at h
        · cases h
        · rename_i hnotes
          rintro rfl
          exact hnotes (List.isEmpty_iff.2 (CopyProblem.notes.inj (Except.error.inj h)))

/-- A name leaves no note if there was none and a directory of that name has been copied. -/
theorem copyEntry_of_no_notes {target : Path} {depth : Nat} {name : Text} {state : Disk × List CopyNote}
    (h : (copyEntry source target depth state name).2 = []) : state.2 = [] ∧
      (state.1.isDirectory (source.child name) = .ok true →
        state.1.copyTreeTo (source.child name) (target.child name) depth =
          ((copyEntry source target depth state name).1, .ok ())) := by
  by_cases hdir : state.1.isDirectory (source.child name) = .ok true
  · unfold copyEntry at h ⊢
    simp only [hdir] at h ⊢
    rcases hrun : state.1.copyTreeTo (source.child name) (target.child name) depth with ⟨d₁, (e | notes) | u⟩
    · rw [hrun] at h
      simp at h
    · rw [hrun] at h
      exact absurd (List.append_eq_nil_iff.1 h).2 (copyTreeTo_notes_ne_nil hrun)
    · rw [hrun] at h
      exact ⟨h, fun _ => rfl⟩
  · refine ⟨?_, fun hc => absurd hc hdir⟩
    unfold copyEntry at h
    simp only at h
    exact (List.append_eq_nil_iff.1 h).1

theorem foldl_copyEntry_of_no_notes {target : Path} {depth : Nat} {names : List Text} {state : Disk × List CopyNote}
    (h : (names.foldl (copyEntry source target depth) state).2 = []) : state.2 = [] := by
  induction names generalizing state with
  | nil => exact h
  | cons name names ih => exact (copyEntry_of_no_notes (ih h)).1

theorem retains_foldl_copyEntry {target : Path} {depth : Nat} (names : List Text) (state : Disk × List CopyNote) :
    Retains T state.1 (names.foldl (copyEntry source target depth) state).1 := by
  induction names generalizing state with
  | nil => exact .refl T state.1
  | cons name names ih => exact (retains_copyEntry state name (retains_copyTreeTo _ _ _ _)).trans (ih _)

theorem exists_of_foldl_copyEntry {target : Path} {depth : Nat} {names : List Text} {start : Disk × List CopyNote}
    (hnotes : (names.foldl (copyEntry source target depth) start).2 = []) {name : Text} (hname : name ∈ names) :
    ∃ front : List Text, (∀ other ∈ front, other ∈ names) ∧
      ((front.foldl (copyEntry source target depth) start).1.isDirectory (source.child name) = .ok true →
        ∃ d₁, (front.foldl (copyEntry source target depth) start).1.copyTreeTo (source.child name) (target.child name)
            depth = (d₁, .ok ()) ∧
          Retains T d₁ (names.foldl (copyEntry source target depth) start).1) := by
  obtain ⟨front, back, rfl⟩ := List.append_of_mem hname
  rw [List.foldl_append, List.foldl_cons] at hnotes ⊢
  have hstep := (copyEntry_of_no_notes (foldl_copyEntry_of_no_notes hnotes)).2
  exact ⟨front, fun other hother => List.mem_append_left _ hother, fun hdir =>
    ⟨_, hstep hdir, retains_foldl_copyEntry back _⟩⟩

theorem changes_foldl_copyEntry (source : Path) (htgt : PlainNames tgt) (htop : top <+: tgt) (depth : Nat)
    {names : List Text}
    (hnames : ∀ name ∈ names, Path.PlainName name) (state : Disk × List CopyNote) (h : Copies top state.1) :
    Changes (Reach top tgt) Nowhere state.1 (names.foldl (copyEntry source (.ofLocation tgt) depth) state).1 := by
  refine changes_foldl (I := Copies top)
    (fun _ _ hd hc => hc.changes (htgt.of_prefix htop) hd (spares_nowhere top))
    (fun name hname state hstate => ?_) state h
  have hplain := hnames name hname
  have hbelow : top <+: tgt ++ [name] := htop.trans (List.prefix_append _ _)
  have hentry := changes_copyEntry hplain htgt htop state
    (changes_copyTreeTo (source.child name) (htgt.child hplain) hbelow depth state.1 hstate)
  exact hentry.widen fun l hl => reach_child hl

/-! ## Copies -/

/-- A copy that succeeds has gone through the names of its source and has left no note. -/
theorem exists_of_copyTreeTo_ok {target : Path} {depth : Nat}
    (h : d.copyTreeTo source target (depth + 1) = (d', .ok ())) :
    ∃ names d₁, d.list source = .ok names ∧ d.ensureDirectories target = (d₁, .ok ()) ∧
      d' = (names.foldl (copyEntry source target depth) (d₁, [])).1 ∧
      (names.foldl (copyEntry source target depth) (d₁, [])).2 = [] := by
  rw [copyTreeTo_succ] at h
  rcases hlist : d.list source with e | names
  · rw [hlist] at h
    cases h
  · rw [hlist] at h
    rcases hensured : d.ensureDirectories target with ⟨d₁, e | u⟩
    · rw [hensured] at h
      cases h
    · rw [hensured] at h
      obtain ⟨rfl, hnotes⟩ := Prod.mk.inj h
      refine ⟨names, d₁, rfl, rfl, rfl, ?_⟩
      split at hnotes
      · exact List.isEmpty_iff.1 ‹_›
      · cases hnotes

section

variable (hsrc : PlainNames src) (htgt : PlainNames tgt) (htop : top <+: tgt)
  (hsource : ∀ rel, Spares (Reach top tgt) (src ++ rel)) (h : Copies top d)
include hsrc htgt htop hsource h

omit htgt htop h in
theorem isDirectory_of_reach (hd : Changes (Reach top tgt) Nowhere d d') {rel : List Text} (hrel : PlainNames rel) :
    d'.isDirectory (.ofLocation (src ++ rel)) = d.isDirectory (.ofLocation (src ++ rel)) :=
  hd.isDirectory_at (List.forall_mem_append.2 ⟨hsrc, hrel⟩) (hsource rel) (spares_nowhere _)

/-- A directory in the source of a copy that succeeds is copied at some time, from a disk to one that the result
retains. -/
theorem exists_of_copied_child {depth : Nat} {name : Text} (hname : Path.PlainName name)
    (hdir : d.isDirectory (.ofLocation (src ++ [name])) = .ok true)
    (hrun : d.copyTreeTo (.ofLocation src) (.ofLocation tgt) (depth + 1) = (d', .ok ())) :
    ∃ d₁ d₂, Changes (Reach top tgt) Nowhere d d₁ ∧
      d₁.copyTreeTo (.ofLocation (src ++ [name])) (.ofLocation (tgt ++ [name])) depth = (d₂, .ok ()) ∧
      Retains Nowhere d₂ d' := by
  obtain ⟨names, d₁, hlist, hensured, rfl, hnotes⟩ := exists_of_copyTreeTo_ok hrun
  have hmade : Changes (Reach top tgt) Nowhere d d₁ := by
    have hchange : Changes (Between top tgt) Nowhere d (d.ensureDirectories (.ofLocation tgt)).1 :=
      changes_ensureDirectories htgt htop h.standing
    rw [hensured] at hchange
    exact hchange.widen fun l hl => between_reach hl
  have hlisted : name ∈ names := (mem_list_iff hsrc hlist).2 ⟨_, entryAt_of_isDirectory (hsrc.child hname) hdir⟩
  obtain ⟨front, hfront, hcopied⟩ := exists_of_foldl_copyEntry (T := Nowhere) hnotes hlisted
  have hplain := plain_of_list h.sound hlist
  have hcopies : Copies top d₁ := h.changes (htgt.of_prefix htop) hmade (spares_nowhere top)
  have hbefore := changes_foldl_copyEntry (.ofLocation src) htgt htop depth
    (fun other hother => hplain other (hfront other hother)) (d₁, []) hcopies
  have hsame := isDirectory_of_reach hsrc hsource (hmade.trans hbefore) (List.forall_mem_singleton.2 hname)
  obtain ⟨d₂, hcopy, hretains⟩ := hcopied (hsame.trans hdir)
  exact ⟨_, d₂, hmade.trans hbefore, hcopy, hretains⟩

end

/-- A copy that succeeds leaves a counterpart of every directory of its source, where it does not reach the source. -/
theorem mirrored_copyTreeTo (hsrc : PlainNames src) (htgt : PlainNames tgt) (htop : top <+: tgt)
    (hsource : ∀ rel, Spares (Reach top tgt) (src ++ rel)) (depth : Nat) (h : Copies top d)
    (hrun : d.copyTreeTo (.ofLocation src) (.ofLocation tgt) depth = (d', .ok ())) : Mirrored src tgt d' := by
  -- on the depth; a directory of the source was there before, since a copy makes none there
  induction depth generalizing d d' src tgt with
  | zero => cases hrun
  | succ depth ih =>
    have hall : Changes (Reach top tgt) Nowhere d d' := by
      have hchange := changes_copyTreeTo (.ofLocation src) htgt htop (depth + 1) d h
      rwa [hrun] at hchange
    intro rel hrel hdir
    rw [isDirectory_of_reach hsrc hsource hall hrel] at hdir
    cases rel with
    | nil =>
      obtain ⟨names, d₁, -, hensured, rfl, -⟩ := exists_of_copyTreeTo_ok hrun
      rw [List.append_nil]
      exact (retains_foldl_copyEntry (T := Nowhere) names (d₁, [])).isDirectory htgt (spares_nowhere _)
        (isDirectory_of_ensured htgt hensured)
    | cons name rel =>
      have hname : Path.PlainName name := hrel name List.mem_cons_self
      have hrest : PlainNames rel := fun part hpart => hrel part (List.mem_cons_of_mem _ hpart)
      have happ : ∀ (l : Location) (rest : List Text), l ++ name :: rest = l ++ [name] ++ rest := by simp
      rw [happ] at hdir ⊢
      have habove := isDirectory_above (List.forall_mem_append.2 ⟨hsrc.child hname, hrest⟩) hdir
      obtain ⟨d₁, d₂, hbefore, hcopy, hretains⟩ := exists_of_copied_child hsrc htgt htop hsource h hname habove hrun
      have hbelow : top <+: tgt ++ [name] := htop.trans (List.prefix_append _ _)
      have hspares : ∀ rel, Spares (Reach top (tgt ++ [name])) (src ++ [name] ++ rel) := by
        intro rel
        rw [← happ]
        exact (hsource (name :: rel)).mono fun l hl => reach_child hl
      have hcopies : Copies top d₁ := h.changes (htgt.of_prefix htop) hbefore (spares_nowhere top)
      have hchange := changes_copyTreeTo (.ofLocation (src ++ [name])) (htgt.child hname) hbelow depth d₁ hcopies
      rw [hcopy] at hchange
      have hthere : d₂.isDirectory (.ofLocation (src ++ [name] ++ rel)) = .ok true := by
        rw [isDirectory_of_reach (hsrc.child hname) hspares hchange hrest, ← happ,
          isDirectory_of_reach hsrc hsource hbefore hrel, happ]
        exact hdir
      exact hretains.isDirectory (List.forall_mem_append.2 ⟨htgt.child hname, hrest⟩) (spares_nowhere _)
        (ih (hsrc.child hname) (htgt.child hname) hbelow hspares hcopies hcopy rel hrest hthere)

theorem mirrored_copyTree (hsrc : PlainNames src) (htgt : PlainNames tgt) (htop : top <+: tgt)
    (hsource : ∀ rel, Spares (Reach top tgt) (src ++ rel)) (h : Copies top d)
    (hrun : d.copyTree (.ofLocation src) (.ofLocation tgt) = (d', .ok ())) : Mirrored src tgt d' :=
  mirrored_copyTreeTo hsrc htgt htop hsource _ h hrun

end Sitewright.Disk
