import Mathlib
import Sitewright.File.Disk
/-!
# Where paths lead

A path is followed part by part. This file says which entries decide where it leads, which location that
is, and what can go wrong on the way; nothing here changes a disk.

Main statements: a path leads to the location that its parts spell (`location_walk`), where it leads is
decided by the entries that it passes (`walk_congr`), and only a name that is too long can keep a path
from being looked at (`look_ok_of_short`).
-/
set_option autoImplicit false

namespace Sitewright

open FileTree (Flaw Place walk entryAt nameLimit)

/-! ## Locations -/

def FileTree.Place.location : Place → Location
  | .entry loc _ => loc
  | .vacant loc => loc

/-- The locations that the parts of a path pass from a directory on, where every double dot takes the last
name back. -/
def Path.passed (dir : Location) : List Text → List Location
  | [] => []
  | part :: rest =>
    if part = ['.', '.'] then passed dir.dropLast rest
    else (dir ++ [part]) :: passed (dir ++ [part]) rest

namespace FileTree

theorem entryAt_mem {loc : Location} {e : Entry} {tree : FileTree}
    (h : entryAt loc tree = some e) : (loc, e) ∈ tree := by
  induction tree with
  | nil => cases h
  | cons item rest ih =>
    obtain ⟨l, old⟩ := item
    by_cases hl : l = loc
    · rw [entryAt, if_pos hl, Option.some.injEq] at h
      rw [← hl, ← h]
      exact List.mem_cons_self
    · rw [entryAt, if_neg hl] at h
      exact List.mem_cons_of_mem _ (ih h)

theorem exists_entryAt {loc : Location} {e : Entry} {tree : FileTree} (h : (loc, e) ∈ tree) :
    ∃ e', entryAt loc tree = some e' := by
  induction tree with
  | nil => cases h
  | cons item rest ih =>
    obtain ⟨l, old⟩ := item
    by_cases hl : l = loc
    · exact ⟨old, by rw [entryAt, if_pos hl]⟩
    · rw [entryAt, if_neg hl]
      rcases List.mem_cons.1 h with heq | hmem
      · exact absurd (congrArg Prod.fst heq).symm hl
      · exact ih hmem

theorem walk_cons (tree : FileTree) (dir : Location) (part : Text) (rest : List Text) :
    walk tree dir (part :: rest) =
      if part = ['.', '.'] then walk tree dir.dropLast rest
      else if Utf8.size part > nameLimit then .error .nameTooLong
      else match entryAt (dir ++ [part]) tree with
        | none => if rest.isEmpty then .ok (.vacant (dir ++ [part])) else .error .missing
        | some .directory => walk tree (dir ++ [part]) rest
        | some e => if rest.isEmpty then .ok (.entry (dir ++ [part]) e) else .error .notDirectory := rfl

/-- Where a walk ends is spelt by its parts alone. -/
theorem location_walk {tree : FileTree} {dir : Location} {parts : List Text} {p : Place}
    (h : walk tree dir parts = .ok p) : p.location = Path.follow dir parts := by
  induction parts generalizing dir with
  | nil =>
    cases h
    rfl
  | cons part rest ih =>
    rw [walk_cons] at h
    rw [Path.follow]
    split at h
    · rename_i hdots
      rw [if_pos hdots]
      exact ih h
    · rename_i hdots
      rw [if_neg hdots]
      split at h
      · cases h
      · split at h
        · split at h
          · rename_i hr
            cases h
            rw [List.isEmpty_iff.1 hr]
            rfl
          · cases h
        · exact ih h
        · split at h
          · rename_i hr
            cases h
            rw [List.isEmpty_iff.1 hr]
            rfl
          · cases h

theorem walk_congr {tree tree' : FileTree} {dir : Location} {parts : List Text}
    (h : ∀ loc ∈ Path.passed dir parts, entryAt loc tree' = entryAt loc tree) :
    walk tree' dir parts = walk tree dir parts := by
  induction parts generalizing dir with
  | nil => rfl
  | cons part rest ih =>
    rw [walk_cons, walk_cons]
    rw [Path.passed] at h
    split
    · rename_i hdots
      rw [if_pos hdots] at h
      exact ih h
    · rename_i hdots
      rw [if_neg hdots] at h
      rw [h _ List.mem_cons_self]
      have hrest := ih fun loc hloc => h loc (List.mem_cons_of_mem _ hloc)
      split
      · rfl
      · split <;> first | rfl | exact hrest

theorem walk_file {tree : FileTree} {dir loc : Location} {parts : List Text} {bytes : Bytes}
    {stamp : Stamp} (h : walk tree dir parts = .ok (.entry loc (.file bytes stamp))) :
    entryAt loc tree = some (.file bytes stamp) := by
  induction parts generalizing dir with
  | nil => cases h
  | cons part rest ih =>
    rw [walk_cons] at h
    split at h
    · exact ih h
    · split at h
      · cases h
      · split at h
        · split at h <;> cases h
        · exact ih h
        · rename_i e _ he
          split at h
          · cases h
            exact he
          · cases h

theorem walk_vacant {tree : FileTree} {dir loc : Location} {parts : List Text}
    (h : walk tree dir parts = .ok (.vacant loc)) : entryAt loc tree = none := by
  induction parts generalizing dir with
  | nil => cases h
  | cons part rest ih =>
    rw [walk_cons] at h
    split at h
    · exact ih h
    · split at h
      · cases h
      · split at h
        · rename_i he
          split at h
          · cases h
            exact he
          · cases h
        · exact ih h
        · split at h <;> cases h

theorem walk_nameTooLong {tree : FileTree} {dir : Location} {parts : List Text}
    (h : walk tree dir parts = .error .nameTooLong) : ∃ part ∈ parts, Utf8.size part > nameLimit := by
  induction parts generalizing dir with
  | nil => cases h
  | cons part rest ih =>
    have later : ∀ {dir' : Location}, walk tree dir' rest = .error .nameTooLong →
        ∃ p ∈ part :: rest, Utf8.size p > nameLimit := by
      intro dir' h'
      obtain ⟨p, hp, hsize⟩ := ih h'
      exact ⟨p, List.mem_cons_of_mem _ hp, hsize⟩
    rw [walk_cons] at h
    split at h
    · exact later h
    · split at h
      · rename_i hsize
        exact ⟨part, List.mem_cons_self, hsize⟩
      · split at h
        · split at h <;> cases h
        · exact later h
        · split at h <;> cases h

/-- A walk goes on behind its first parts only from a directory. -/
theorem walk_append (tree : FileTree) (dir : Location) (front rest : List Text) (hrest : rest ≠ []) :
    walk tree dir (front ++ rest) =
      match walk tree dir front with
      | .ok (.entry loc .directory) => walk tree loc rest
      | .ok (.entry _ (.file _ _)) => .error .notDirectory
      | .ok (.vacant _) => .error .missing
      | .error flaw => .error flaw := by
  induction front generalizing dir with
  | nil => rfl
  | cons part front ih =>
    have hne : (front ++ rest).isEmpty = false := by
      cases front with
      | nil => simpa using hrest
      | cons _ _ => rfl
    rw [List.cons_append, walk_cons, walk_cons, ih, ih, hne]
    split
    · rfl
    · split
      · rfl
      · cases entryAt (dir ++ [part]) tree with
        | none => cases front <;> rfl
        | some e =>
          cases e with
          | directory => rfl
          | file bytes stamp => cases front <;> rfl

end FileTree

/-! ## Plain names -/

/-- A text that names an entry of a directory. -/
structure Path.PlainName (name : Text) : Prop where
  nonempty : name ≠ []
  not_dot : name ≠ ['.']
  not_dots : name ≠ ['.', '.']
  noSlash : '/' ∉ name
  noNul : '\x00' ∉ name

def Path.child (p : Path) (name : Text) : Path := ⟨p.anchor, p.parts ++ [name]⟩

theorem Text.splitFrom_of_not_mem {sep : Char} {done : List Text} {piece s : Text} (h : sep ∉ s) :
    Text.splitFrom sep done piece s = (((piece.reverse ++ s) :: done).reverse) := by
  induction s generalizing piece with
  | nil => rw [splitFrom, List.append_nil]
  | cons c s ih =>
    rw [List.mem_cons, not_or] at h
    rw [splitFrom, if_neg (Ne.symm h.1), ih h.2, List.reverse_cons (a := c), List.append_assoc]
    rfl

/-- A text that names an entry of a directory as far as its spelling goes: it may hold a null character. -/
structure Path.FileName (name : Text) : Prop where
  nonempty : name ≠ []
  not_dot : name ≠ ['.']
  not_dots : name ≠ ['.', '.']
  noSlash : '/' ∉ name

instance (name : Text) : Decidable (Path.FileName name) :=
  decidable_of_iff (name ≠ [] ∧ name ≠ ['.'] ∧ name ≠ ['.', '.'] ∧ '/' ∉ name)
    ⟨fun h => ⟨h.1, h.2.1, h.2.2.1, h.2.2.2⟩, fun h => ⟨h.nonempty, h.not_dot, h.not_dots, h.noSlash⟩⟩

theorem Path.PlainName.fileName {name : Text} (h : PlainName name) : FileName name :=
  ⟨h.nonempty, h.not_dot, h.not_dots, h.noSlash⟩

theorem Path.FileName.plainName {name : Text} (h : FileName name) (hnul : '\x00' ∉ name) : PlainName name :=
  ⟨h.nonempty, h.not_dot, h.not_dots, h.noSlash, hnul⟩

instance (name : Text) : Decidable (Path.PlainName name) :=
  decidable_of_iff (Path.FileName name ∧ '\x00' ∉ name)
    ⟨fun h => h.1.plainName h.2, fun h => ⟨h.fileName, h.noNul⟩⟩

theorem Path.anchorOf_eq_here_iff {s : Text} : anchorOf s = .here ↔ s.head? ≠ some '/' := by
  unfold anchorOf
  split
  · simp
  · simp
  · simp
  · rename_i hnot
    cases s with
    | nil => simp
    | cons c s => simpa using hnot s

theorem Path.FileName.ofText_eq {name : Text} (h : FileName name) : ofText name = ⟨.here, [name]⟩ := by
  have hanchor : anchorOf name = .here := anchorOf_eq_here_iff.2 fun hc => h.noSlash (List.mem_of_head? hc)
  have hpart : isPart name = true := by
    unfold isPart
    simp [h.nonempty, h.not_dot]
  rw [ofText, hanchor, partsOf, Text.splitOn, Text.splitFrom_of_not_mem h.noSlash]
  simp [hpart]

theorem Path.FileName.join_eq {name : Text} (h : FileName name) (p : Path) : p.join name = p.child name := by
  rw [join, h.ofText_eq]
  rfl

theorem Path.PlainName.join_eq {name : Text} (h : PlainName name) (p : Path) : p.join name = p.child name :=
  h.fileName.join_eq p

/-! ## Disks -/

theorem Path.hasNul_iff {p : Path} : p.hasNul = true ↔ ∃ part ∈ p.parts, '\x00' ∈ part := by
  simp only [hasNul, List.any_eq_true, List.elem_iff]

/-- Every part of the path is short enough for a name. -/
def Path.Short (p : Path) : Prop := ∀ part ∈ p.parts, Utf8.size part ≤ nameLimit

theorem Path.short_of_all {p : Path}
    (h : (p.parts.all fun part => decide (Utf8.size part ≤ nameLimit)) = true) : p.Short := by
  intro part hpart
  exact of_decide_eq_true (List.all_eq_true.1 h part hpart)

namespace Disk

theorem start_congr {d d' : Disk} (h : d'.here = d.here) (a : Anchor) : d'.start a = d.start a := by
  cases a <;> simp [start, h]

theorem place_of_hasNul {d : Disk} {p : Path} (h : p.hasNul = true) : d.place p = .error .nulByte := by
  rw [place, if_pos h]

theorem not_hasNul_of_place {d : Disk} {p : Path} {r : Except FileProblem Place} (h : d.place p = r)
    (hr : r ≠ .error .nulByte) : ¬ p.hasNul = true := by
  intro hnul
  exact hr (h ▸ place_of_hasNul hnul)

theorem place_eq_walk {d : Disk} {p : Path} (h : ¬ p.hasNul = true) :
    d.place p =
      match entryAt (d.start p.anchor) d.tree with
      | some .directory =>
        match walk d.tree (d.start p.anchor) p.parts with
        | .ok found => .ok found
        | .error flaw => .error (.flaw flaw p.toText)
      | _ => .error (.flaw .missing p.toText) := by
  unfold place
  exact if_neg h

/-- A path leads somewhere only from a directory, and then where its parts lead. -/
theorem walk_of_place {d : Disk} {p : Path} {q : Place} (h : d.place p = .ok q) :
    entryAt (d.start p.anchor) d.tree = some .directory ∧
      walk d.tree (d.start p.anchor) p.parts = .ok q := by
  unfold place at h
  split at h
  · cases h
  · simp only at h
    split at h
    · rename_i hdir
      split at h
      · rename_i hw
        cases h
        exact ⟨hdir, hw⟩
      · cases h
    · cases h

theorem location_place {d : Disk} {p : Path} {q : Place} (h : d.place p = .ok q) :
    q.location = p.resolve d.here := by
  obtain ⟨anchor, parts⟩ := p
  rw [FileTree.location_walk (walk_of_place h).2]
  cases anchor <;> rfl

theorem place_file {d : Disk} {p : Path} {loc : Location} {bytes : Bytes} {stamp : Stamp}
    (h : d.place p = .ok (.entry loc (.file bytes stamp))) :
    entryAt loc d.tree = some (.file bytes stamp) :=
  FileTree.walk_file (walk_of_place h).2

theorem place_vacant {d : Disk} {p : Path} {loc : Location} (h : d.place p = .ok (.vacant loc)) :
    entryAt loc d.tree = none :=
  FileTree.walk_vacant (walk_of_place h).2

theorem ne_directory_of_vacant {d : Disk} {p : Path} {loc : Location} (h : d.place p = .ok (.vacant loc)) :
    entryAt loc d.tree ≠ some .directory := by
  rw [place_vacant h]
  simp

theorem ne_directory_of_file {d : Disk} {p : Path} {loc : Location} {bytes : Bytes} {stamp : Stamp}
    (h : d.place p = .ok (.entry loc (.file bytes stamp))) : entryAt loc d.tree ≠ some .directory := by
  rw [place_file h]
  simp

theorem place_congr {d d' : Disk} {p : Path} (hhere : d'.here = d.here)
    (hstart : entryAt (d.start p.anchor) d'.tree = entryAt (d.start p.anchor) d.tree)
    (h : ∀ loc ∈ Path.passed (d.start p.anchor) p.parts, entryAt loc d'.tree = entryAt loc d.tree) :
    d'.place p = d.place p := by
  unfold place
  simp only [start_congr hhere, hstart, FileTree.walk_congr h]

/-- Where a child of a path leads: to an entry of the directory that the path leads to. -/
theorem place_child {d : Disk} {p : Path} {name : Text} (hdots : name ≠ ['.', '.'])
    (hnul : '\x00' ∉ name) :
    d.place (p.child name) =
      match d.place p with
      | .ok (.entry loc .directory) =>
        if Utf8.size name > nameLimit then .error (.flaw .nameTooLong (p.child name).toText)
        else match entryAt (loc ++ [name]) d.tree with
          | none => .ok (.vacant (loc ++ [name]))
          | some e => .ok (.entry (loc ++ [name]) e)
      | .ok (.entry _ (.file _ _)) => .error (.flaw .notDirectory (p.child name).toText)
      | .ok (.vacant _) => .error (.flaw .missing (p.child name).toText)
      | .error (.flaw flaw _) => .error (.flaw flaw (p.child name).toText)
      | .error .nulByte => .error .nulByte := by
  have hchild : (p.child name).hasNul = p.hasNul := by
    have hname : List.elem '\x00' name = false := by simpa using hnul
    simp only [Path.hasNul, Path.child, List.any_append, List.any_cons, List.any_nil, hname,
      Bool.or_false]
  by_cases h : p.hasNul = true
  · rw [place_of_hasNul h, place_of_hasNul (hchild.trans h)]
  · rw [place_eq_walk h, place_eq_walk (fun hc => h (hchild.symm.trans hc))]
    simp only [Path.child]
    rw [FileTree.walk_append _ _ _ _ (List.cons_ne_nil _ _)]
    rcases entryAt (d.start p.anchor) d.tree with _ | _ | ⟨bytes, stamp⟩
    · rfl
    · simp only
      rcases walk d.tree (d.start p.anchor) p.parts with flaw | ⟨loc, _ | ⟨bytes, stamp⟩⟩ | loc
      · rfl
      · simp only
        rw [FileTree.walk_cons, if_neg hdots]
        by_cases hsize : Utf8.size name > nameLimit
        · rw [if_pos hsize, if_pos hsize]
        · rw [if_neg hsize, if_neg hsize]
          rcases entryAt (loc ++ [name]) d.tree with _ | _ | ⟨bytes, stamp⟩ <;> rfl
      · rfl
      · rfl
    · rfl

theorem place_child_of_directory {d : Disk} {p : Path} {name : Text} {loc : Location} (hname : Path.PlainName name)
    (h : d.place p = .ok (.entry loc .directory)) :
    d.place (p.child name) =
      if Utf8.size name > nameLimit then .error (.flaw .nameTooLong (p.child name).toText)
      else match entryAt (loc ++ [name]) d.tree with
        | none => .ok (.vacant (loc ++ [name]))
        | some e => .ok (.entry (loc ++ [name]) e) := by
  rw [place_child hname.not_dots hname.noNul, h]

theorem place_child_cases {d : Disk} {p : Path} {name : Text} {loc : Location} (hname : Path.PlainName name)
    (h : d.place p = .ok (.entry loc .directory)) :
    d.place (p.child name) = .error (.flaw .nameTooLong (p.child name).toText) ∨
      d.place (p.child name) = .ok (.vacant (loc ++ [name])) ∨
      ∃ e, d.place (p.child name) = .ok (.entry (loc ++ [name]) e) := by
  rw [place_child_of_directory hname h]
  split
  · exact .inl rfl
  · cases entryAt (loc ++ [name]) d.tree with
    | none => exact .inr (.inl rfl)
    | some e => exact .inr (.inr ⟨e, rfl⟩)

theorem place_nameTooLong {d : Disk} {p : Path} {path : Text}
    (h : d.place p = .error (.flaw .nameTooLong path)) : ¬ p.Short := by
  unfold place at h
  split at h
  · cases h
  · simp only at h
    split at h
    · split at h
      · cases h
      · rename_i flaw hw
        cases h
        obtain ⟨part, hpart, hsize⟩ := FileTree.walk_nameTooLong hw
        exact fun hshort => absurd (hshort part hpart) (by omega)
    · cases h

theorem walk_short {tree : FileTree} {dir : Location} {parts : List Text} {q : Place}
    (h : walk tree dir parts = .ok q) : ∀ part ∈ parts, Utf8.size part ≤ nameLimit := by
  induction parts generalizing dir with
  | nil => exact fun _ hc => absurd hc List.not_mem_nil
  | cons part rest ih =>
    rw [FileTree.walk_cons] at h
    by_cases hdots : part = ['.', '.']
    · rw [if_pos hdots] at h
      intro other hother
      rcases List.mem_cons.1 hother with rfl | hother
      · rw [hdots]
        decide
      · exact ih h other hother
    · rw [if_neg hdots] at h
      by_cases hsize : Utf8.size part > nameLimit
      · rw [if_pos hsize] at h
        cases h
      · rw [if_neg hsize] at h
        intro other hother
        rcases List.mem_cons.1 hother with rfl | hother
        · omega
        · split at h
          · split at h
            · rename_i hr
              rw [List.isEmpty_iff.1 hr] at hother
              exact absurd hother List.not_mem_nil
            · cases h
          · exact ih h other hother
          · split at h
            · rename_i hr
              rw [List.isEmpty_iff.1 hr] at hother
              exact absurd hother List.not_mem_nil
            · cases h

theorem short_of_place {d : Disk} {p : Path} {q : Place} (h : d.place p = .ok q) : p.Short :=
  walk_short (walk_of_place h).2

/-! ## Looking -/

theorem look_of_place {d : Disk} {p : Path} {loc : Location} {e : Entry}
    (h : d.place p = .ok (.entry loc e)) : d.look p = .ok (some e) := by
  rw [look, h]

theorem look_of_vacant {d : Disk} {p : Path} {loc : Location} (h : d.place p = .ok (.vacant loc)) :
    d.look p = .ok none := by
  rw [look, h]

theorem place_of_look {d : Disk} {p : Path} {e : Entry} (h : d.look p = .ok (some e)) :
    ∃ loc, d.place p = .ok (.entry loc e) := by
  unfold look at h
  split at h
  · rename_i loc e' hp
    cases h
    exact ⟨loc, hp⟩
  · cases h
  · cases h
  · cases h

/-- A look fails only at a name that is too long. -/
theorem look_ok_of_short {d : Disk} {p : Path} (h : p.Short) : ∃ r, d.look p = .ok r := by
  unfold look
  split
  · exact ⟨_, rfl⟩
  · exact ⟨_, rfl⟩
  · rename_i hp
    exact absurd h (place_nameTooLong hp)
  · exact ⟨_, rfl⟩

theorem look_congr {d d' : Disk} {p : Path} (h : d'.place p = d.place p) : d'.look p = d.look p := by
  rw [look, look, h]

theorem isFile_ok_of_short {d : Disk} {p : Path} (h : p.Short) : ∃ b, d.isFile p = .ok b := by
  obtain ⟨r, hr⟩ := look_ok_of_short (d := d) h
  rw [isFile, hr]
  exact ⟨_, rfl⟩

theorem place_of_isFile {d : Disk} {p : Path} (h : d.isFile p = .ok true) :
    ∃ loc bytes stamp, d.place p = .ok (.entry loc (.file bytes stamp)) := by
  unfold isFile at h
  cases hl : d.look p with
  | error e => rw [hl] at h; cases h
  | ok r =>
    rw [hl] at h
    match r, h with
    | some (.file bytes stamp), _ =>
      obtain ⟨loc, hp⟩ := place_of_look hl
      exact ⟨loc, bytes, stamp, hp⟩
    | some .directory, h => cases h
    | none, h => cases h

theorem isFile_of_place {d : Disk} {p : Path} {loc : Location} {bytes : Bytes} {stamp : Stamp}
    (h : d.place p = .ok (.entry loc (.file bytes stamp))) : d.isFile p = .ok true := by
  rw [isFile, look_of_place h]
  rfl

theorem readBytes_of_place {d : Disk} {p : Path} {loc : Location} {bytes : Bytes} {stamp : Stamp}
    (h : d.place p = .ok (.entry loc (.file bytes stamp))) : d.readBytes p = .ok bytes := by
  rw [readBytes, h]

theorem place_of_readBytes {d : Disk} {p : Path} {bytes : Bytes} (h : d.readBytes p = .ok bytes) :
    ∃ loc stamp, d.place p = .ok (.entry loc (.file bytes stamp)) := by
  unfold readBytes at h
  split at h
  · rename_i loc b stamp hp
    cases h
    exact ⟨loc, stamp, hp⟩
  · cases h
  · cases h
  · cases h

theorem readBytes_of_isFile {d : Disk} {p : Path} (h : d.isFile p = .ok true) :
    ∃ bytes, d.readBytes p = .ok bytes := by
  obtain ⟨loc, bytes, stamp, hp⟩ := place_of_isFile h
  exact ⟨bytes, readBytes_of_place hp⟩

theorem mem_of_readBytes {d : Disk} {p : Path} {bytes : Bytes} (h : d.readBytes p = .ok bytes) :
    ∃ loc stamp, (loc, Entry.file bytes stamp) ∈ d.tree := by
  obtain ⟨loc, stamp, hp⟩ := place_of_readBytes h
  exact ⟨loc, stamp, FileTree.entryAt_mem (place_file hp)⟩

end Disk
end Sitewright
