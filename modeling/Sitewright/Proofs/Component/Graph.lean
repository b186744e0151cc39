import Sitewright.Component.Basic
import Sitewright.Proofs.File.Lookup
import Sitewright.Proofs.Outcome
import Sitewright.Proofs.Text.Scanning
/-!
# The graph of references

The markup of a component refers to further tokens. On a disk that does not change this makes a graph
whose nodes are tokens, two spellings of one path being two nodes: an edge leads from the token of a
component that exists to each token in its markup. What a text reaches is finite, since every token is
written in the text or in some file.

* `Refers`, `Reaches`: the edges, and what a text reaches along them.
* `Along`: the stacks under which texts are met when references are followed from a page.

Main statement: fewer tokens can be reached than the bound on nesting allows
(`exists_reached_lt_nestingBound`).
-/
set_option autoImplicit false

namespace Sitewright.Component

open Reading (outcome textIn outcome_bind outcome_ask outcome_pure)

/-! ## Components on a disk -/

/-- The path, where a file of a disk stands there. -/
def fileIn? (d : Disk) (path : Path) : Except Failure (Option Path) :=
  ((d.isFile path).mapError .file).map fun there => if there then some path else none

/-- The component of a token on a disk; none where its markup is no file. -/
def found (site : Site) (d : Disk) (token : Text) : Except Failure (Option Component) :=
  let dir := site.componentRoot token
  match fileIn? d (dir.join site.componentMarkup) with
  | .error e => .error e
  | .ok none => .ok none
  | .ok (some markup) =>
    match fileIn? d (dir.join site.componentStylesheet) with
    | .error e => .error e
    | .ok stylesheet =>
      (fileIn? d (dir.join site.componentScript)).map fun script =>
        some ⟨token, markup, stylesheet, script⟩

/-- The markup of a token on a disk; none where it has no component. -/
def markupIn (site : Site) (d : Disk) (token : Text) : Except Failure (Option Text) :=
  match found site d token with
  | .error e => .error e
  | .ok none => .ok none
  | .ok (some c) => (textIn d c.markup).map some

theorem outcome_fileAt? (path : Path) (d : Disk) (l : Log) :
    outcome (fileAt? path) d l = (fileIn? d path, l) := by
  unfold fileAt? fileIn?
  rw [outcome_bind, outcome_ask]
  cases d.isFile path with
  | error e => rfl
  | ok there => rfl

theorem outcome_load (site : Site) (token : Text) (d : Disk) (l : Log) :
    outcome (load site token) d l = (found site d token, l) := by
  unfold load found
  simp only
  rw [outcome_bind, outcome_fileAt?]
  rcases fileIn? d ((site.componentRoot token).join site.componentMarkup) with e | _ | markup
  · rfl
  · rfl
  · simp only
    rw [outcome_bind, outcome_fileAt?]
    rcases fileIn? d ((site.componentRoot token).join site.componentStylesheet) with e | stylesheet
    · rfl
    · simp only
      rw [outcome_bind, outcome_fileAt?]
      rcases fileIn? d ((site.componentRoot token).join site.componentScript) with e | script <;> rfl

theorem fileIn?_some {d : Disk} {path path' : Path} (h : fileIn? d path = .ok (some path')) :
    path' = path ∧ d.isFile path = .ok true := by
  unfold fileIn? at h
  rcases hf : d.isFile path with e | b
  · rw [hf] at h
    cases h
  · rw [hf] at h
    cases b <;> cases h
    exact ⟨rfl, rfl⟩

theorem fileIn?_ok_of_short {d : Disk} {path : Path} (h : path.Short) : ∃ r, fileIn? d path = .ok r := by
  obtain ⟨b, hb⟩ := Disk.isFile_ok_of_short (d := d) h
  rw [fileIn?, hb]
  exact ⟨_, rfl⟩

/-- A component that is found has its token, and its markup is a file. -/
theorem of_found {site : Site} {d : Disk} {token : Text} {c : Component}
    (h : found site d token = .ok (some c)) :
    c.token = token ∧ c.markup = (site.componentRoot token).join site.componentMarkup ∧
      d.isFile c.markup = .ok true := by
  unfold found at h
  simp only at h
  split at h
  · cases h
  · cases h
  · rename_i markup hm
    split at h
    · cases h
    · rcases hs : fileIn? d ((site.componentRoot token).join site.componentScript) with e | script
      · rw [hs] at h
        cases h
      · rw [hs] at h
        cases h
        obtain ⟨rfl, hfile⟩ := fileIn?_some hm
        exact ⟨rfl, rfl, hfile⟩

theorem script_of_found {site : Site} {d : Disk} {token : Text} {c : Component}
    (h : found site d token = .ok (some c)) {path : Path} (hpath : path ∈ c.script) :
    path = (site.componentRoot token).join site.componentScript := by
  unfold found at h
  simp only at h
  split at h
  · cases h
  · cases h
  · split at h
    · cases h
    · rcases hs : fileIn? d ((site.componentRoot token).join site.componentScript) with e | script
      · rw [hs] at h
        cases h
      · rw [hs] at h
        cases h
        cases hpath
        exact (fileIn?_some hs).1

theorem outcome_markupText {site : Site} {d : Disk} {token : Text} {c : Component}
    (h : found site d token = .ok (some c)) (l : Log) :
    outcome (markupText c) d l = ((textIn d c.markup).map some, l) := by
  obtain ⟨bytes, hb⟩ := Disk.readBytes_of_isFile (of_found h).2.2
  unfold markupText
  rw [outcome_bind, Reading.outcome_attempt, Reading.outcome_textOf]
  unfold textIn
  rw [hb]
  simp only
  cases Utf8.decode bytes <;> rfl

/-! ## Edges -/

/-- The markup of the component of one token refers to another token. -/
def Refers (site : Site) (d : Disk) (t u : Text) : Prop :=
  ∃ s, markupIn site d t = .ok (some s) ∧ u ∈ tokens site s

/-- A text refers to a token, directly or through components. -/
def Reaches (site : Site) (d : Disk) (s u : Text) : Prop :=
  ∃ t ∈ tokens site s, Relation.ReflTransGen (Refers site d) t u

variable {site : Site} {d : Disk} {page : Text}

theorem reaches_of_mem {s u : Text} (h : u ∈ tokens site s) : Reaches site d s u :=
  ⟨u, h, .refl⟩

theorem Reaches.tail {s t u : Text} (h : Reaches site d s t) (htu : Refers site d t u) :
    Reaches site d s u := by
  obtain ⟨t₀, ht₀, hpath⟩ := h
  exact ⟨t₀, ht₀, hpath.tail htu⟩

/-! ## Stacks -/

/-- A text is met under a stack of tokens when references are followed from a page: each token of the
stack is new, and is referred to by the text that it was met in. -/
inductive Along (site : Site) (d : Disk) (page : Text) : List Text → Text → Prop
  | start : Along site d page [] page
  | step {stack : List Text} {s t m : Text} : Along site d page stack s → t ∈ tokens site s →
      t ∉ stack → markupIn site d t = .ok (some m) → Along site d page (stack ++ [t]) m

theorem Along.nodup {stack : List Text} {s : Text} (h : Along site d page stack s) : stack.Nodup := by
  induction h with
  | start => exact List.nodup_nil
  | step _ _ hnew _ ih =>
    refine List.nodup_append.2 ⟨ih, List.nodup_singleton _, ?_⟩
    intro a ha b hb hab
    rw [List.mem_singleton.1 hb] at hab
    exact hnew (hab ▸ ha)

theorem Along.reaches_of_mem {stack : List Text} {s : Text} (h : Along site d page stack s) :
    (∀ t ∈ stack, Reaches site d page t) ∧ ∀ t ∈ tokens site s, Reaches site d page t := by
  induction h with
  | start => exact ⟨fun t ht => absurd ht List.not_mem_nil, fun t ht => ⟨t, ht, .refl⟩⟩
  | @step stack s t m _ ht _ hm ih =>
    constructor
    · intro u hu
      rcases List.mem_append.1 hu with hu | hu
      · exact ih.1 u hu
      · rw [List.mem_singleton.1 hu]
        exact ih.2 t ht
    · intro u hu
      exact (ih.2 t ht).tail ⟨m, hm, hu⟩

/-- A stack is a path of references that begins in the page and goes on in the text. -/
theorem Along.chain {stack : List Text} {s : Text} (h : Along site d page stack s) :
    ∀ t ∈ tokens site s, (stack ++ [t]).IsChain (Refers site d) ∧
      ∀ u ∈ (stack ++ [t]).head?, u ∈ tokens site page := by
  induction h with
  | start =>
    intro t ht
    refine ⟨List.isChain_singleton t, fun u hu => ?_⟩
    simp only [List.nil_append, List.head?_cons, Option.mem_def, Option.some.injEq] at hu
    exact hu ▸ ht
  | @step stack s t m _ ht _ hm ih =>
    intro u hu
    obtain ⟨hchain, hhead⟩ := ih t ht
    constructor
    · refine List.isChain_append.2 ⟨hchain, List.isChain_singleton u, fun x hx y hy => ?_⟩
      simp only [List.getLast?_append, List.getLast?_singleton, Option.some_or, Option.mem_def,
        Option.some.injEq, List.head?_cons] at hx hy
      exact hx ▸ hy ▸ ⟨m, hm, hu⟩
    · intro x hx
      rw [List.head?_append] at hx
      cases hne : (stack ++ [t]).head? with
      | none => simp at hne
      | some y =>
        rw [hne] at hx
        exact hhead x (hne ▸ hx)

theorem Along.length_le {stack : List Text} {s : Text} (h : Along site d page stack s)
    {reached : Finset Text} (hall : ∀ t, Reaches site d page t → t ∈ reached) :
    stack.length ≤ reached.card := by
  rw [← List.toFinset_card_of_nodup h.nodup]
  refine Finset.card_le_card fun t ht => ?_
  exact hall t (h.reaches_of_mem.1 t (List.mem_toFinset.1 ht))

theorem length_decodeFrom_le {out s : Text} {index skip : Nat} {bytes : Bytes}
    (h : Utf8.decodeFrom out index skip bytes = .ok s) : s.length ≤ out.length + bytes.length := by
  induction bytes generalizing out index skip with
  | nil =>
    cases h
    rw [List.length_reverse]
    omega
  | cons b rest ih =>
    cases skip with
    | succ k =>
      have : s.length ≤ out.length + rest.length := ih h
      rw [List.length_cons]
      omega
    | zero =>
      rw [Utf8.decodeFrom] at h
      split at h
      · have := ih h
        rw [List.length_cons] at this ⊢
        omega
      · cases h

theorem length_decode_le {bytes : Bytes} {s : Text} (h : Utf8.decode bytes = .ok s) :
    s.length ≤ bytes.length := by
  unfold Utf8.decode at h
  split at h
  · cases h
    rw [List.length_map]
  · have := length_decodeFrom_le h
    rw [List.length_nil] at this
    omega

theorem length_normalizeFrom_le (out s : Text) (b : Bool) :
    (Newline.normalizeFrom out b s).length ≤ out.length + s.length := by
  induction s generalizing out b with
  | nil => rw [Newline.normalizeFrom, List.length_reverse]; omega
  | cons c s ih =>
    rw [Newline.normalizeFrom]
    split
    · have := ih ('\n' :: out) true
      rw [List.length_cons] at this ⊢
      omega
    · split
      · have := ih out false
        rw [List.length_cons]
        omega
      · have := ih (c :: out) false
        rw [List.length_cons] at this ⊢
        omega

theorem length_tokens_le (site : Site) (s : Text) : (tokens site s).length ≤ s.length := by
  rw [tokens, List.length_map]
  exact Scan.length_marks_le _ _

def tokensOf (site : Site) : Entry → List Text
  | .directory => []
  | .file bytes _ =>
    match Utf8.decode bytes with
    | .ok s => tokens site (Newline.normalize s)
    | .error _ => []

theorem length_tokensOf_le (site : Site) (bytes : Bytes) (stamp : Stamp) :
    (tokensOf site (.file bytes stamp)).length ≤ bytes.length := by
  rw [tokensOf]
  split
  · rename_i s hs
    have h1 := length_tokens_le site (Newline.normalize s)
    have h2 := length_normalizeFrom_le [] s false
    have h3 := length_decode_le hs
    rw [List.length_nil] at h2
    rw [Newline.normalize] at h1 ⊢
    omega
  · exact Nat.zero_le _

/-- A token in the markup of a component is written in some file. -/
theorem mem_tokensOf_of_refers {t u : Text} (h : Refers site d t u) :
    ∃ item ∈ d.tree, u ∈ tokensOf site item.2 := by
  obtain ⟨s, hs, hu⟩ := h
  unfold markupIn at hs
  split at hs
  · cases hs
  · cases hs
  · rename_i c hc
    obtain ⟨bytes, hb⟩ := Disk.readBytes_of_isFile (of_found hc).2.2
    obtain ⟨loc, stamp, hmem⟩ := Disk.mem_of_readBytes hb
    refine ⟨(loc, .file bytes stamp), hmem, ?_⟩
    unfold textIn at hs
    rw [hb] at hs
    simp only at hs
    rw [tokensOf]
    cases hd : Utf8.decode bytes with
    | error e =>
      rw [hd] at hs
      cases hs
    | ok raw =>
      rw [hd] at hs
      cases hs
      exact hu

/-- The tokens written in a text or in some file of a tree. -/
def written (site : Site) (tree : FileTree) (s : Text) : List Text :=
  tokens site s ++ tree.flatMap fun item => tokensOf site item.2

theorem mem_written_of_reaches {u : Text} (h : Reaches site d page u) :
    u ∈ written site d.tree page := by
  obtain ⟨t, ht, hpath⟩ := h
  cases hpath with
  | refl => exact List.mem_append_left _ ht
  | tail _ hlast =>
    obtain ⟨item, hitem, hu⟩ := mem_tokensOf_of_refers hlast
    exact List.mem_append_right _ (List.mem_flatMap.2 ⟨item, hitem, hu⟩)

def boundOn (d : Disk) (page : Text) : Nat :=
  d.tree.foldl (fun n item =>
    match item.2 with
    | .file bytes _ => n + bytes.length
    | .directory => n) (page.length + 1)

theorem outcome_nestingBound (page : Text) (d : Disk) (l : Log) :
    outcome (nestingBound page) d l = (.ok (boundOn d page), l) := rfl

theorem length_written_lt (site : Site) (d : Disk) (page : Text) :
    (written site d.tree page).length < boundOn d page := by
  have hfold : ∀ (tree : FileTree) (n : Nat),
      n + (tree.flatMap fun item => tokensOf site item.2).length ≤
        tree.foldl (fun n item =>
          match item.2 with
          | .file bytes _ => n + bytes.length
          | .directory => n) n := by
    intro tree
    induction tree with
    | nil => intro n; exact Nat.le_refl _
    | cons item rest ih =>
      intro n
      obtain ⟨loc, e⟩ := item
      rw [List.flatMap_cons, List.length_append, List.foldl_cons]
      cases e with
      | directory =>
        have := ih n
        rw [tokensOf, List.length_nil]
        simpa using this
      | file bytes stamp =>
        have h1 := ih (n + bytes.length)
        have h2 := length_tokensOf_le site bytes stamp
        simp only
        omega
  have h1 := hfold d.tree (page.length + 1)
  have h2 := length_tokens_le site page
  rw [written, List.length_append, boundOn]
  omega

/-- There are fewer tokens to be reached than the bound on nesting allows. -/
theorem exists_reached_lt_nestingBound (site : Site) (d : Disk) (page : Text) :
    ∃ reached : Finset Text, (∀ t, t ∈ reached ↔ Reaches site d page t) ∧
      reached.card < boundOn d page := by
  classical
  refine ⟨(written site d.tree page).toFinset.filter (Reaches site d page), fun t => ?_, ?_⟩
  · rw [Finset.mem_filter, List.mem_toFinset]
    exact ⟨fun h => h.2, fun h => ⟨mem_written_of_reaches h, h⟩⟩
  · refine Nat.lt_of_le_of_lt (Finset.card_filter_le _ _) ?_
    exact Nat.lt_of_le_of_lt (List.toFinset_card_le _) (length_written_lt site d page)

end Sitewright.Component
