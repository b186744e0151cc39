import Sitewright.Command.Run
import Sitewright.Proofs.Yaml
/-!
# Loading the settings

The settings are those of a file, with what the environment says in their places, or loading them fails. Most failures
are reported: a command prints them and ends with an error status. Three are not, and get past the command: the file
has not the form of a document, its keys that are no settings cannot be put in order, or a setting that is a sequence
is given a value that has no items.

* `Settings.contentAt`: what is found where the settings of a project are looked for.
* `Settings.Follows`: the settings are those of a document and an environment.
* `Settings.Unreported`: what is wrong with a file of settings whose failure is not reported.

Main statement: `Settings.load_reports_iff`.
-/
set_option autoImplicit false

namespace Sitewright
namespace Settings

open Reading (outcome outcome_bind outcome_bind_eq outcome_ask outcome_ofExcept)

variable {members : List (Yaml.Scalar × Yaml.Value)}

/-! ## The file -/

def documentIn (d : Disk) (path : Path) : Except Failure Yaml.Value := do
  let bytes ← (d.readBytes path).mapError .file
  let text ← (Utf8.decodeInPortions portion bytes).mapError .notUtf8
  (Yaml.read (Newline.normalize text)).mapError .badSettings

/-- The file of the settings of a project, which may be named. -/
def pathOf (root : Path) (config : Option Text) : Path :=
  match config.filter fun c => !c.isEmpty with
  | some c => Path.ofText c
  | none => root.join fileName

/-- What is found where the settings of a project are looked for: the value of a document, or nothing, unless the file
is named. -/
def contentAt (root : Path) (config : Option Text) (d : Disk) : Except Failure (Option Yaml.Value) :=
  match config.filter fun c => !c.isEmpty with
  | some c => (documentIn d (Path.ofText c)).map some
  | none =>
    match d.exists? (root.join fileName) with
    | .ok true => (documentIn d (root.join fileName)).map some
    | .ok false => .ok none
    | .error e => .error (.file e)

def ofContent (file : Text) : Option Yaml.Value → Except Failure Settings
  | none => .ok default
  | some v => ofDocument file v

theorem outcome_ofFile (path : Path) (d : Disk) (l : Log) :
    outcome (ofFile path) d l = (documentIn d path >>= ofDocument path.name, l) := by
  unfold ofFile documentIn
  rw [bind_assoc]
  refine outcome_bind_eq (outcome_ask _ d l) fun bytes => ?_
  rw [bind_assoc]
  refine outcome_bind_eq (outcome_ofExcept _ _ d l) fun text => ?_
  refine outcome_bind_eq (outcome_ofExcept _ _ d l) fun v => ?_
  rw [outcome_ofExcept]
  cases ofDocument path.name v <;> rfl

theorem outcome_load (root : Path) (config : Option Text) (env : Environment) (d : Disk) (l : Log) :
    outcome (load root config env) d l =
      (contentAt root config d >>= ofContent (pathOf root config).name >>= (withEnvironment · env), l) := by
  have henv : ∀ s : Settings,
      outcome (Reading.ofExcept id (s.withEnvironment env)) d l = (s.withEnvironment env, l) := by
    intro s
    rw [outcome_ofExcept]
    cases s.withEnvironment env <;> rfl
  have hfile : ∀ path : Path, outcome (ofFile path >>= fun s => Reading.ofExcept id (s.withEnvironment env)) d l =
      ((documentIn d path).map some >>= ofContent path.name >>= (withEnvironment · env), l) := by
    intro path
    refine outcome_bind_eq ((outcome_ofFile path d l).trans ?_) henv
    cases documentIn d path <;> rfl
  unfold load contentAt pathOf
  cases config.filter fun c => !c.isEmpty with
  | some c => exact hfile (Path.ofText c)
  | none =>
    simp only [Option.isSome_none, Bool.false_eq_true, if_false]
    rw [outcome_bind, outcome_ask]
    cases d.exists? (root.join fileName) with
    | error e => rfl
    | ok there =>
      cases there with
      | true => exact hfile (root.join fileName)
      | false => exact henv default

/-! ## The environment -/

def givenBy (env : Environment) : Setting → Option Yaml.Value
  | .baseUrl =>
    let url := Text.trim (env.productionUrl.getD [])
    if url.isEmpty then none else some (.string url)
  | .devPort => env.port.bind fun text => (Integer.read text).toOption.map fun n => .scalar (.int n)
  | _ => none

theorem eq_givenBy {s s' : Settings} {env : Environment} (hrest : ∀ k, k ≠ .baseUrl → k ≠ .devPort → s' k = s k)
    (hurl : s' .baseUrl = (givenBy env .baseUrl).getD (s .baseUrl))
    (hport : s' .devPort = (givenBy env .devPort).getD (s .devPort)) : s' = fun k => (givenBy env k).getD (s k) := by
  funext k
  by_cases hk : k = .baseUrl
  · rw [hk, hurl]
  · by_cases hk' : k = .devPort
    · rw [hk', hport]
    · rw [hrest k hk hk']
      cases k <;> first | rfl | contradiction

theorem set_baseUrl (s : Settings) (env : Environment) (k : Setting) :
    (if (Text.trim (env.productionUrl.getD [])).isEmpty then s
      else s.set .baseUrl (.string (Text.trim (env.productionUrl.getD [])))) k =
        if k = .baseUrl then (givenBy env .baseUrl).getD (s .baseUrl) else s k := by
  simp only [givenBy]
  split
  · split
    · rename_i hk
      rw [hk]
      rfl
    · rfl
  · rfl

theorem withEnvironment_eq (s : Settings) (env : Environment) : withEnvironment s env =
    match env.port with
    | none => .ok fun k => (givenBy env k).getD (s k)
    | some text =>
      match Integer.read text with
      | .ok _ => .ok fun k => (givenBy env k).getD (s k)
      | .error e => .error (.badPort text e) := by
  unfold withEnvironment
  cases hport : env.port with
  | none =>
    refine congrArg Except.ok (eq_givenBy (fun k hk _ => ?_) ?_ ?_)
    · rw [set_baseUrl, if_neg hk]
    · rw [set_baseUrl, if_pos rfl]
    · rw [set_baseUrl, if_neg (by decide)]
      simp [givenBy, hport]
  | some text =>
    simp only
    cases hread : Integer.read text with
    | error e => rfl
    | ok n =>
      refine congrArg Except.ok (eq_givenBy (fun k hk hk' => ?_) ?_ ?_)
      · rw [set_of_ne _ hk', set_baseUrl, if_neg hk]
      · rw [set_of_ne _ (by decide), set_baseUrl, if_pos rfl]
      · rw [set_self]
        simp [givenBy, hport, hread, Except.toOption]

theorem of_withEnvironment {s s' : Settings} {env : Environment} (h : withEnvironment s env = .ok s') (k : Setting) :
    s' k = (givenBy env k).getD (s k) := by
  rw [withEnvironment_eq] at h
  split at h
  · cases h
    rfl
  · split at h
    · cases h
      rfl
    · cases h

theorem error_of_withEnvironment {s : Settings} {env : Environment} {e : Failure}
    (h : withEnvironment s env = .error e) : ∃ text problem, e = .badPort text problem := by
  rw [withEnvironment_eq] at h
  split at h
  · cases h
  · split at h
    · cases h
    · cases h
      exact ⟨_, _, rfl⟩

/-! ## Members that give settings their values -/

def strangeKeys (members : List (Yaml.Scalar × Yaml.Value)) : List Yaml.Scalar :=
  (members.map Prod.fst).filter fun k => (settingOf? k).isNone

/-- The value of a setting that a document gives it: of one that holds a sequence its items. -/
def valueFor (k : Setting) (v : Yaml.Value) : Except Failure Yaml.Value :=
  if k.isSequence then (itemsOf v).map .sequence else .ok v

theorem eq_of_settingOf? {key : Yaml.Scalar} {k : Setting} (h : settingOf? key = some k) : key = .string k.name := by
  unfold settingOf? at h
  split at h
  · rename_i name
    have hname : decide (k.name = name) = true := List.find?_some (p := fun k : Setting => decide (k.name = name)) h
    exact congrArg _ (of_decide_eq_true hname).symm
  · cases h

theorem settingOf?_ne_of_sameKey {key key' : Yaml.Scalar} (h : key.sameKey key' = false) {k : Setting}
    (hk : settingOf? key = some k) : settingOf? key' ≠ some k := by
  intro hk'
  rw [eq_of_settingOf? hk, eq_of_settingOf? hk'] at h
  simp [Yaml.Scalar.sameKey, Yaml.Scalar.number?] at h

theorem assign_cons_none {m : Yaml.Scalar × Yaml.Value} (h : settingOf? m.1 = none) (s : Settings) :
    assign (m :: members) s = assign members s := by
  rw [assign, h]

theorem assign_cons_some {m : Yaml.Scalar × Yaml.Value} {k : Setting} (h : settingOf? m.1 = some k) (s : Settings) :
    assign (m :: members) s =
      match valueFor k m.2 with
      | .ok v => assign members (s.set k v)
      | .error e => .error e := by
  rw [assign, h]
  simp only [valueFor]
  cases k.isSequence with
  | false => rfl
  | true =>
    simp only [if_true]
    cases itemsOf m.2 <;> rfl

theorem assign_other {s s' : Settings} (h : assign members s = .ok s') {k : Setting}
    (hother : ∀ m ∈ members, settingOf? m.1 ≠ some k) : s' k = s k := by
  induction members generalizing s with
  | nil =>
    cases h
    rfl
  | cons m rest ih =>
    obtain ⟨hfirst, hrest⟩ := List.forall_mem_cons.1 hother
    cases hkey : settingOf? m.1 with
    | none =>
      rw [assign_cons_none hkey] at h
      exact ih h hrest
    | some k' =>
      rw [assign_cons_some hkey] at h
      split at h
      · rw [ih h hrest, set_of_ne]
        exact fun he => hfirst (he ▸ hkey)
      · cases h

theorem assign_given (hd : Yaml.Distinct members) {s s' : Settings} (h : assign members s = .ok s')
    {m : Yaml.Scalar × Yaml.Value} (hm : m ∈ members) {k : Setting} (hk : settingOf? m.1 = some k) :
    valueFor k m.2 = .ok (s' k) := by
  induction members generalizing s with
  | nil => cases hm
  | cons first rest ih =>
    obtain ⟨hfirst, hrest⟩ := List.pairwise_cons.1 hd
    rcases List.mem_cons.1 hm with rfl | hmem
    · rw [assign_cons_some hk] at h
      split at h
      · rename_i v hv
        rw [assign_other h fun m' hm' => settingOf?_ne_of_sameKey (hfirst m' hm') hk, set_self, hv]
      · cases h
    · cases hkey : settingOf? first.1 with
      | none =>
        rw [assign_cons_none hkey] at h
        exact ih hrest h hmem
      | some k' =>
        rw [assign_cons_some hkey] at h
        split at h
        · exact ih hrest h hmem
        · cases h

theorem assign_error {s : Settings} {e : Failure} (h : assign members s = .error e) :
    ∃ m ∈ members, ∃ k, settingOf? m.1 = some k ∧ valueFor k m.2 = .error e := by
  induction members generalizing s with
  | nil => cases h
  | cons first rest ih =>
    have hlater : (∃ m ∈ rest, ∃ k, settingOf? m.1 = some k ∧ valueFor k m.2 = .error e) →
        ∃ m ∈ first :: rest, ∃ k, settingOf? m.1 = some k ∧ valueFor k m.2 = .error e :=
      fun ⟨m, hm, hfails⟩ => ⟨m, List.mem_cons_of_mem _ hm, hfails⟩
    cases hkey : settingOf? first.1 with
    | none =>
      rw [assign_cons_none hkey] at h
      exact hlater (ih h)
    | some k =>
      rw [assign_cons_some hkey] at h
      split at h
      · exact hlater (ih h)
      · rename_i hv
        cases h
        exact ⟨first, List.mem_cons_self, k, hkey, hv⟩

/-- The value is a scalar, but neither a text nor bytes, so it has no items. -/
def Itemless (v : Yaml.Value) : Prop := ∃ s, v = .scalar s ∧ s.kind ≠ .string ∧ s.kind ≠ .bytes

theorem itemsOf_of_itemless {v : Yaml.Value} (h : Itemless v) : ∃ words, itemsOf v = .error (.wrongType words) := by
  obtain ⟨s, rfl, hstring, hbytes⟩ := h
  cases s with
  | string s => exact absurd rfl hstring
  | bytes b => exact absurd rfl hbytes
  | _ => exact ⟨_, rfl⟩

theorem itemsOf_of_not_itemless {v : Yaml.Value} (h : ¬ Itemless v) : ∃ items, itemsOf v = .ok items := by
  cases v with
  | scalar s =>
    cases s with
    | string s => exact ⟨_, rfl⟩
    | bytes b => exact ⟨_, rfl⟩
    | _ => exact absurd ⟨_, rfl, Yaml.Kind.noConfusion, Yaml.Kind.noConfusion⟩ h
  | _ => exact ⟨_, rfl⟩

/-- Only a setting that holds a sequence is refused a value: one without items. -/
theorem valueFor_error {k : Setting} {v : Yaml.Value} {e : Failure} (h : valueFor k v = .error e) :
    k.isSequence = true ∧ Itemless v ∧ ∃ words, e = .wrongType words := by
  unfold valueFor at h
  split at h
  · rename_i hseq
    by_cases hitems : Itemless v
    · obtain ⟨words, hwords⟩ := itemsOf_of_itemless hitems
      rw [hwords] at h
      cases h
      exact ⟨hseq, hitems, words, rfl⟩
    · obtain ⟨items, hok⟩ := itemsOf_of_not_itemless hitems
      rw [hok] at h
      cases h
  · cases h

theorem valueFor_ne_ok {k : Setting} {v : Yaml.Value} (hk : k.isSequence = true) (hv : Itemless v) (v' : Yaml.Value) :
    valueFor k v ≠ .ok v' := by
  obtain ⟨words, hwords⟩ := itemsOf_of_itemless hv
  rw [valueFor, if_pos hk, hwords]
  exact nofun

/-! ## Keys that are no settings -/

theorem unknownKeys_ok {keys : List Yaml.Scalar} (h : unknownKeys members = .ok keys) :
    keys.Perm (strangeKeys members) := by
  unfold unknownKeys at h
  split at h
  · rename_i hsorted
    cases h
    exact Yaml.sortedScalars?_perm hsorted
  · cases h

theorem unknownKeys_error {e : Failure} (h : unknownKeys members = .error e) :
    (∃ a ∈ strangeKeys members, ∃ b ∈ strangeKeys members, a.kind ≠ b.kind) ∧ ∃ words, e = .wrongType words := by
  unfold unknownKeys at h
  split at h
  · cases h
  · rename_i hsorted
    cases h
    exact ⟨(Yaml.sortedScalars?_eq_none_iff _).1 hsorted, _, rfl⟩

theorem unknownKeys_of_kinds (h : ∀ a ∈ strangeKeys members, ∀ b ∈ strangeKeys members, a.kind = b.kind) :
    ∃ keys, unknownKeys members = .ok keys := by
  cases hkeys : unknownKeys members with
  | ok keys => exact ⟨keys, rfl⟩
  | error e =>
    obtain ⟨⟨a, ha, b, hb, hne⟩, -⟩ := unknownKeys_error hkeys
    exact absurd (h a ha b hb) hne

theorem unknownKeys_ne_ok {a b : Yaml.Scalar} (ha : a ∈ strangeKeys members) (hb : b ∈ strangeKeys members)
    (hne : a.kind ≠ b.kind) (keys : List Yaml.Scalar) : unknownKeys members ≠ .ok keys := by
  have hnone := (Yaml.sortedScalars?_eq_none_iff (strangeKeys members)).2 ⟨a, ha, b, hb, hne⟩
  rw [unknownKeys, ← strangeKeys, hnone]
  exact nofun

theorem ofDocument_mapping (file : Text) (members : List (Yaml.Scalar × Yaml.Value)) :
    ofDocument file (.mapping members) =
      match unknownKeys members with
      | .error e => .error e
      | .ok [] => assign members default
      | .ok keys => .error (.unknownSettings file (keys.map Yaml.Scalar.shown) (Setting.all.map Setting.name)) := by
  unfold ofDocument
  split
  · rename_i hnothing
    rw [List.isEmpty_iff.1 hnothing]
    rfl
  · rfl

/-! ## Settings that are loaded -/

/-- The members of what is found, if it is a mapping. -/
def membersIn : Option Yaml.Value → List (Yaml.Scalar × Yaml.Value)
  | some (.mapping members) => members
  | _ => []

/-- The settings are those of what is found and of an environment: nothing but settings is given values, each setting
has the value that the environment gives it, or else the one that the document gives it, or else its default. -/
structure Follows (env : Environment) (found : Option Yaml.Value) (s : Settings) : Prop where
  mapping : ∀ v, found = some v → v.isNothing = true ∨ ∃ members, v = .mapping members
  known : strangeKeys (membersIn found) = []
  environment : ∀ k v, givenBy env k = some v → s k = v
  given : ∀ m ∈ membersIn found, ∀ k, settingOf? m.1 = some k → givenBy env k = none → valueFor k m.2 = .ok (s k)
  others : ∀ k, (∀ m ∈ membersIn found, settingOf? m.1 ≠ some k) → givenBy env k = none → s k = default k

/-- What is wrong with a file of settings whose failure is not reported. -/
inductive Unreported : Except Failure (Option Yaml.Value) → Prop
  /-- It has not the form of a document, or a scalar in it is not what it is said to be. -/
  | malformed {problem : Yaml.Problem} (h : problem.isOfValue = false) : Unreported (.error (.badSettings problem))
  /-- Two keys are no settings and of different kinds. -/
  | keys {members : List (Yaml.Scalar × Yaml.Value)} {a b : Yaml.Scalar} (ha : a ∈ strangeKeys members)
      (hb : b ∈ strangeKeys members) (h : a.kind ≠ b.kind) : Unreported (.ok (some (.mapping members)))
  /-- All keys are settings, and one that holds a sequence is given a value without items. -/
  | items {members : List (Yaml.Scalar × Yaml.Value)} {m : Yaml.Scalar × Yaml.Value} {k : Setting}
      (hknown : strangeKeys members = []) (hm : m ∈ members) (hkey : settingOf? m.1 = some k)
      (hk : k.isSequence = true) (h : Itemless m.2) : Unreported (.ok (some (.mapping members)))

/-- The failure is one that a command reports. -/
def IsReported (e : Failure) : Prop := (e.isOfFiles || e.isOfValue) = true

theorem isReported_file (problem : FileProblem) : IsReported (.file problem) := by cases problem <;> rfl

theorem not_isReported_wrongType (words : Text) : ¬ IsReported (.wrongType words) := Bool.false_ne_true

theorem documentIn_cases (d : Disk) (path : Path) :
    (∃ text, documentIn d path = (Yaml.read text).mapError .badSettings) ∨
      ∃ e, documentIn d path = .error e ∧ IsReported e := by
  unfold documentIn
  cases d.readBytes path with
  | error problem => exact .inr ⟨.file problem, rfl, isReported_file problem⟩
  | ok bytes =>
    simp only [Except.mapError, bind, Except.bind]
    cases Utf8.decodeInPortions portion bytes with
    | error problem => exact .inr ⟨.notUtf8 problem, rfl, rfl⟩
    | ok text => exact .inl ⟨Newline.normalize text, rfl⟩

/-- A document is found, or no file, or a failure that is reported. -/
theorem contentAt_cases (root : Path) (config : Option Text) (d : Disk) :
    (∃ text, contentAt root config d = ((Yaml.read text).mapError .badSettings).map some) ∨
      contentAt root config d = .ok none ∨ ∃ e, contentAt root config d = .error e ∧ IsReported e := by
  have hfile : ∀ path, (∃ text, (documentIn d path).map some = ((Yaml.read text).mapError .badSettings).map some) ∨
      ∃ e, (documentIn d path).map some = .error e ∧ IsReported e := by
    intro path
    rcases documentIn_cases d path with ⟨text, htext⟩ | ⟨e, he, hreported⟩
    · exact .inl ⟨text, by rw [htext]⟩
    · exact .inr ⟨e, by rw [he]; rfl, hreported⟩
  unfold contentAt
  split
  · exact (hfile _).imp_right .inr
  · split
    · exact (hfile _).imp_right .inr
    · exact .inr (.inl rfl)
    · exact .inr (.inr ⟨_, rfl, isReported_file _⟩)

theorem contentAt_error {root : Path} {config : Option Text} {d : Disk} {e : Failure}
    (h : contentAt root config d = .error e) : IsReported e ∨ ∃ problem, e = .badSettings problem := by
  rcases contentAt_cases root config d with ⟨text, htext⟩ | hnone | ⟨e', he', hreported⟩
  · rw [htext] at h
    cases hread : Yaml.read text with
    | ok v =>
      rw [hread] at h
      cases h
    | error problem =>
      rw [hread] at h
      cases h
      exact .inr ⟨problem, rfl⟩
  · rw [hnone] at h
    cases h
  · rw [he'] at h
    cases h
    exact .inl hreported

theorem distinct_of_contentAt {root : Path} {config : Option Text} {d : Disk} {found : Option Yaml.Value}
    (h : contentAt root config d = .ok found) : Yaml.Distinct (membersIn found) := by
  rcases contentAt_cases root config d with ⟨text, htext⟩ | hnone | ⟨e, he, -⟩
  · rw [htext] at h
    cases hread : Yaml.read text with
    | error problem =>
      rw [hread] at h
      cases h
    | ok v =>
      rw [hread] at h
      cases h
      cases v with
      | mapping members => exact Yaml.distinct_of_read hread
      | _ => exact List.Pairwise.nil
  · rw [hnone] at h
    cases h
    exact List.Pairwise.nil
  · rw [he] at h
    cases h

theorem error_of_ofContent {file : Text} {found : Option Yaml.Value} {e : Failure}
    (h : ofContent file found = .error e) : IsReported e ∨ Unreported (.ok found) := by
  cases found with
  | none => cases h
  | some v =>
    rw [ofContent] at h
    cases v with
    | mapping members =>
      rw [ofDocument_mapping] at h
      split at h
      · rename_i hkeys
        obtain ⟨⟨a, ha, b, hb, hne⟩, -⟩ := unknownKeys_error hkeys
        exact .inr (.keys ha hb hne)
      · rename_i hkeys
        obtain ⟨m, hm, k, hkey, hvalue⟩ := assign_error h
        obtain ⟨hseq, hitems, -⟩ := valueFor_error hvalue
        exact .inr (.items (unknownKeys_ok hkeys).symm.eq_nil hm hkey hseq hitems)
      · cases h
        exact .inl rfl
    | _ =>
      unfold ofDocument at h
      split at h
      · cases h
      · cases h
        exact .inl rfl

theorem ofContent_of_unreported (file : Text) {found : Option Yaml.Value} (hd : Yaml.Distinct (membersIn found))
    (h : Unreported (.ok found)) : ∃ e, ofContent file found = .error e ∧ ¬ IsReported e := by
  cases h with
  | @keys members a b ha hb hne =>
    rw [ofContent, ofDocument_mapping]
    cases hkeys : unknownKeys members with
    | ok keys => exact absurd hkeys (unknownKeys_ne_ok ha hb hne keys)
    | error e =>
      obtain ⟨-, words, rfl⟩ := unknownKeys_error hkeys
      exact ⟨_, rfl, not_isReported_wrongType words⟩
  | @items members m k hknown hm hkey hk hitems =>
    have hkeys : unknownKeys members = .ok [] := by rw [unknownKeys, ← strangeKeys, hknown]; rfl
    rw [ofContent, ofDocument_mapping, hkeys]
    simp only
    cases hassign : assign members default with
    | ok s => exact absurd (assign_given hd hassign hm hkey) (valueFor_ne_ok hk hitems _)
    | error e =>
      obtain ⟨m', -, k', -, hvalue⟩ := assign_error hassign
      obtain ⟨-, -, words, rfl⟩ := valueFor_error hvalue
      exact ⟨_, rfl, not_isReported_wrongType words⟩

/-- The settings of what is found give each setting the value of its member, and others their default. -/
theorem of_ofContent {file : Text} {found : Option Yaml.Value} (hd : Yaml.Distinct (membersIn found)) {s : Settings}
    (h : ofContent file found = .ok s) :
    (∀ v, found = some v → v.isNothing = true ∨ ∃ members, v = .mapping members) ∧ strangeKeys (membersIn found) = [] ∧
      (∀ m ∈ membersIn found, ∀ k, settingOf? m.1 = some k → valueFor k m.2 = .ok (s k)) ∧
        ∀ k, (∀ m ∈ membersIn found, settingOf? m.1 ≠ some k) → s k = default k := by
  cases found with
  | none =>
    cases h
    exact ⟨nofun, rfl, nofun, fun _ _ => rfl⟩
  | some v =>
    rw [ofContent] at h
    cases v with
    | mapping members =>
      rw [ofDocument_mapping] at h
      split at h
      · cases h
      · rename_i hkeys
        exact ⟨fun v hv => .inr ⟨members, (Option.some.inj hv).symm⟩, (unknownKeys_ok hkeys).symm.eq_nil,
          fun m hm k hk => assign_given hd h hm hk, fun k hk => assign_other h hk⟩
      · cases h
    | _ =>
      unfold ofDocument at h
      split at h
      · rename_i hnothing
        cases h
        exact ⟨fun v hv => .inl (Option.some.inj hv ▸ hnothing), rfl, nofun, fun _ _ => rfl⟩
      · cases h

/-! ## Loading -/

section

variable {root : Path} {config : Option Text} {env : Environment} {d : Disk} {l : Log}

theorem load_eq : (outcome (load root config env) d l).1 =
    contentAt root config d >>= ofContent (pathOf root config).name >>= (withEnvironment · env) :=
  congrArg Prod.fst (outcome_load root config env d l)

theorem load_of_content_error {content : Option Yaml.Value} {e : Failure}
    (hfound : contentAt root config d = .ok content) (h : ofContent (pathOf root config).name content = .error e) :
    (outcome (load root config env) d l).1 = .error e := by
  rw [load_eq, hfound]
  change ofContent (pathOf root config).name content >>= _ = _
  rw [h]
  rfl

theorem follows_of_load {s : Settings} (h : (outcome (load root config env) d l).1 = .ok s) :
    ∃ content, contentAt root config d = .ok content ∧ Follows env content s := by
  rw [load_eq] at h
  obtain ⟨s₀, hs₀, henv⟩ := ok_of_bind h
  obtain ⟨content, hcontent, hs₀⟩ := ok_of_bind hs₀
  obtain ⟨hmapping, hknown, hgiven, hothers⟩ := of_ofContent (distinct_of_contentAt hcontent) hs₀
  have hvalue := of_withEnvironment henv
  exact ⟨content, hcontent, hmapping, hknown, fun k v hv => by rw [hvalue, hv]; rfl,
    fun m hm k hk hnone => by rw [hvalue, hnone]; exact hgiven m hm k hk,
    fun k hk hnone => by rw [hvalue, hnone]; exact hothers k hk⟩

theorem load_of_unreported (h : Unreported (contentAt root config d)) :
    ∃ e, (outcome (load root config env) d l).1 = .error e ∧ ¬ IsReported e := by
  cases hfound : contentAt root config d with
  | error e =>
    rw [hfound] at h
    obtain @⟨problem, hproblem⟩ := h
    exact ⟨.badSettings problem, by rw [load_eq, hfound]; rfl, Bool.eq_false_iff.1 hproblem⟩
  | ok content =>
    rw [hfound] at h
    obtain ⟨e, he, hfails⟩ := ofContent_of_unreported (pathOf root config).name (distinct_of_contentAt hfound) h
    exact ⟨e, load_of_content_error hfound he, hfails⟩

/-- A failure is reported unless something of the file is at fault that goes unreported; where the environment is at
fault, that is reported. -/
theorem load_error_cases {e : Failure} (h : (outcome (load root config env) d l).1 = .error e) :
    IsReported e ∨ Unreported (contentAt root config d) := by
  rw [load_eq] at h
  rcases error_of_bind h with hfile | ⟨s, -, henv⟩
  · rcases error_of_bind hfile with hfound | ⟨content, hcontent, hfails⟩
    · by_cases hreported : IsReported e
      · exact .inl hreported
      · obtain ⟨problem, rfl⟩ := (contentAt_error hfound).resolve_left hreported
        rw [hfound]
        exact .inr (.malformed (Bool.eq_false_iff.2 hreported))
    · rw [hcontent]
      exact error_of_ofContent hfails
  · obtain ⟨text, problem, rfl⟩ := error_of_withEnvironment henv
    exact .inl rfl

theorem load_of_strangeKeys {members : List (Yaml.Scalar × Yaml.Value)}
    (hfound : contentAt root config d = .ok (some (.mapping members))) (hstrange : strangeKeys members ≠ [])
    (hkinds : ∀ a ∈ strangeKeys members, ∀ b ∈ strangeKeys members, a.kind = b.kind) :
    ∃ keys : List Yaml.Scalar, keys.Perm (strangeKeys members) ∧ (outcome (load root config env) d l).1 =
      .error (.unknownSettings (pathOf root config).name (keys.map Yaml.Scalar.shown)
        (Setting.all.map Setting.name)) := by
  obtain ⟨keys, hkeys⟩ := unknownKeys_of_kinds hkinds
  have hperm := unknownKeys_ok hkeys
  refine ⟨keys, hperm, load_of_content_error hfound ?_⟩
  rw [ofContent, ofDocument_mapping, hkeys]
  cases keys with
  | nil => exact absurd hperm.symm.eq_nil hstrange
  | cons key rest => rfl

end

/-! ## Reports -/

end Settings

namespace Command

theorem outcome_orReport {α : Type} (expected : Failure → Bool) (step : Job α) (next : α → Job Report)
    (w : Workspace) : Job.outcome (orReport expected step next) w =
      match Job.outcome step w with
      | (.ok a, v) => Job.outcome (next a) v
      | (.error e, v) =>
        if expected e then (.ok (failed [] ("Error: ".toList ++ e.message)), v) else (.error e, v) := by
  unfold orReport
  rw [Job.outcome_bind, Job.outcome_attempt]
  rcases Job.outcome step w with ⟨_ | a, v⟩
  · simp only
    split <;> rfl
  · rfl

/-- What a command does with the settings that are loaded. -/
def carriedOut (bundlers : Build.Bundlers) (a : Action) (s : Settings) (root : Path) : Job Report :=
  match a with
  | .build baseUrl bundler outDir =>
    build bundlers (overrideText (overrideText (overrideText s .baseUrl baseUrl) .bundler bundler) .outDir outDir) root
  | .dev host port watch => dev s root host port watch
  | .pages => listPages s root
  | .render route strict => render s root route strict

/-- A command is carried out with the settings that are loaded; of the failures to load them some are reported. -/
theorem outcome_run (bundlers : Build.Bundlers) (env : Environment) (c : Command) (w : Workspace) :
    let root := Path.ofLocation ((Path.ofText c.root).resolve w.disk.here)
    Job.outcome (run bundlers env c) w =
      match (Reading.outcome (Settings.load root c.config env) w.disk w.log).1 with
      | .ok s => Job.outcome (carriedOut bundlers c.action s root) w
      | .error e =>
        if e.isOfFiles || e.isOfValue then (.ok (failed [] ("Error: ".toList ++ e.message)), w) else (.error e, w) := by
  intro root
  have hroot : Job.outcome (rootOf c) w = (.ok root, w) := rfl
  have hload : Job.outcome (Job.look (Settings.load root c.config env)) w =
      ((Reading.outcome (Settings.load root c.config env) w.disk w.log).1, w) := by
    rw [Job.outcome_look, Settings.outcome_load]
  unfold run
  rw [Job.outcome_bind, hroot]
  simp only
  unfold withSettings
  rw [outcome_orReport, hload]
  cases (Reading.outcome (Settings.load root c.config env) w.disk w.log).1 <;> rfl

theorem outcome_run_loaded (bundlers : Build.Bundlers) {env : Environment} {c : Command} {w : Workspace}
    {s : Settings} (h : (Reading.outcome (Settings.load (Path.ofLocation ((Path.ofText c.root).resolve w.disk.here))
      c.config env) w.disk w.log).1 = .ok s) :
    Job.outcome (run bundlers env c) w =
      Job.outcome (carriedOut bundlers c.action s (Path.ofLocation ((Path.ofText c.root).resolve w.disk.here))) w := by
  rw [outcome_run, h]

end Command

namespace Settings

open Reading (outcome)

theorem outcome_run_unloaded (bundlers : Build.Bundlers) {env : Environment} {c : Command} {w : Workspace} {e : Failure}
    (h : (outcome (load (Path.ofLocation ((Path.ofText c.root).resolve w.disk.here)) c.config env) w.disk w.log).1 =
      .error e) :
    Job.outcome (Command.run bundlers env c) w =
      if e.isOfFiles || e.isOfValue then (.ok (Command.failed [] ("Error: ".toList ++ e.message)), w)
      else (.error e, w) := by
  rw [Command.outcome_run, h]

/-- The settings that are loaded are those of the file and the environment. A failure to load them is reported by every
command, unless the file has not the form of a document, keys that are no settings are of several kinds, or a setting
that is a sequence is given a value without items; then the command fails as well. Keys that are no settings are
reported as such if they are of one kind. -/
theorem load_reports_iff (bundlers : Build.Bundlers) (env : Environment) (c : Command) (w : Workspace) :
    let root := Path.ofLocation ((Path.ofText c.root).resolve w.disk.here)
    let found := contentAt root c.config w.disk
    let loaded := (outcome (load root c.config env) w.disk w.log).1
    (∀ s, loaded = .ok s → ∃ content, found = .ok content ∧ Follows env content s) ∧
      ((∃ e, loaded = .error e ∧ ¬ IsReported e) ↔ Unreported found) ∧
      (∀ members, found = .ok (some (.mapping members)) → strangeKeys members ≠ [] →
        ((∀ a ∈ strangeKeys members, ∀ b ∈ strangeKeys members, a.kind = b.kind) ↔
          ∃ keys : List Yaml.Scalar, keys.Perm (strangeKeys members) ∧
            loaded = .error (.unknownSettings (pathOf root c.config).name
              (keys.map Yaml.Scalar.shown) (Setting.all.map Setting.name)))) ∧
      ∀ e, loaded = .error e →
        (IsReported e → Job.outcome (Command.run bundlers env c) w =
          (.ok (Command.failed [] ("Error: ".toList ++ e.message)), w)) ∧
        (¬ IsReported e → Job.outcome (Command.run bundlers env c) w = (.error e, w)) := by
  intro root found loaded
  refine ⟨fun s hs => follows_of_load hs, ⟨?_, fun hunreported => load_of_unreported hunreported⟩,
    fun members hmembers hstrange => ⟨load_of_strangeKeys hmembers hstrange, ?_⟩, fun e he => ?_⟩
  · rintro ⟨e, he, hunreported⟩
    exact (load_error_cases he).resolve_left hunreported
  · rintro ⟨keys, -, hfails⟩ a ha b hb
    by_contra hne
    have hkeys : Unreported (contentAt root c.config w.disk) := by
      rw [show contentAt root c.config w.disk = _ from hmembers]
      exact .keys ha hb hne
    obtain ⟨e, he, hunreported⟩ : ∃ e, loaded = .error e ∧ ¬ IsReported e := load_of_unreported hkeys
    obtain rfl := Except.error.inj (he.symm.trans hfails)
    exact hunreported rfl
  · have hrun := outcome_run_unloaded bundlers he
    exact ⟨fun hreported => hrun.trans (if_pos hreported), fun hunreported => hrun.trans (if_neg hunreported)⟩

def settingsDisk (text : Text) : Disk where
  tree := [([], .directory), (["project".toList], .directory),
    (["project".toList, fileName], .file (Utf8.encode text) (.seconds 0))]
  here := ["project".toList]
  clock := 0

theorem contentAt_settingsDisk {text : Text} {v : Yaml.Value} (hread : Yaml.read text = .ok v)
    (hplain : Newline.normalize text = text) (hdecode : Utf8.decodeInPortions portion (Utf8.encode text) = .ok text) :
    contentAt (Path.ofLocation ["project".toList]) none (settingsDisk text) = .ok (some v) := by
  have hthere : (settingsDisk text).exists? ((Path.ofLocation ["project".toList]).join fileName) = .ok true := by
    rfl
  have hbytes : (settingsDisk text).readBytes ((Path.ofLocation ["project".toList]).join fileName) =
      .ok (Utf8.encode text) := by
    rfl
  simp only [contentAt, documentIn, Option.filter_none, hthere, hbytes, hdecode, hplain, hread, Except.mapError, bind,
    Except.bind, Except.map]

theorem read_of_tree {text : Text} {tokens : List Yaml.Token} {node : Yaml.Node} {v : Yaml.Value}
    (htokens : Yaml.tokens text = .ok tokens) (htree : Yaml.readDocument tokens = .ok (some node))
    (hvalue : node.valueOf = .ok v) : Yaml.read text = .ok v := by
  simp only [Yaml.read, htokens, htree, hvalue, bind, Except.bind, Except.mapError]

/-- With the directory to be written to given in the file, that is the setting that is loaded. -/
theorem load_reports_iff_outDir : ∃ s, (outcome (load (Path.ofLocation ["project".toList]) none ⟨none, none⟩)
    (settingsDisk "out_dir: x".toList) []).1 = .ok s ∧ s .outDir = .string ['x'] := by
  have htokens : Yaml.tokens "out_dir: x".toList = .ok [.blockMapping, .key, .scalar "out_dir".toList true, .value,
      .scalar ['x'] true, .blockEnd] := Reading.eq_ok_of_toOption (by decide +kernel)
  have htree : Yaml.readDocument [.blockMapping, .key, .scalar "out_dir".toList true, .value, .scalar ['x'] true,
      .blockEnd] = .ok (some (.mapping .mapping [(.scalar .string "out_dir".toList, .scalar .string ['x'])])) := rfl
  have hvalue : Yaml.Node.valueOf (.mapping .mapping [(.scalar .string "out_dir".toList, .scalar .string ['x'])]) =
      .ok (.mapping [(.string "out_dir".toList, .string ['x'])]) := by cbv
  have hfound := contentAt_settingsDisk (read_of_tree htokens htree hvalue) (by decide)
    (Reading.eq_ok_of_toOption (by decide +kernel))
  obtain ⟨s, hs⟩ : ∃ s, (outcome (load (Path.ofLocation ["project".toList]) none ⟨none, none⟩)
      (settingsDisk "out_dir: x".toList) []).1 = .ok s := by
    rw [outcome_load, hfound]
    exact ⟨_, rfl⟩
  obtain ⟨content, hcontent, hfollows⟩ := (load_reports_iff [] ⟨none, none⟩ ⟨false, [], none, .pages⟩
    ⟨settingsDisk "out_dir: x".toList, []⟩).1 s hs
  obtain rfl := Except.ok.inj (hfound.symm.trans hcontent)
  have hgiven := hfollows.given _ List.mem_cons_self .outDir (by decide) rfl
  exact ⟨s, hs, (Except.ok.inj hgiven).symm⟩

/-- A file with two keys that are no settings, a number and a text: the failure to load it is not reported. -/
theorem load_unreported_keys :
    ∃ members, contentAt (Path.ofLocation ["project".toList]) none (settingsDisk "1: a\nb: c\n".toList) =
      .ok (some (.mapping members)) ∧ strangeKeys members ≠ [] ∧
      ∃ e, (outcome (load (Path.ofLocation ["project".toList]) none ⟨none, none⟩)
        (settingsDisk "1: a\nb: c\n".toList) []).1 = .error e ∧ e.isOfFiles = false ∧ e.isOfValue = false := by
  have htokens : Yaml.tokens "1: a\nb: c\n".toList = .ok [.blockMapping, .key, .scalar ['1'] true, .value,
      .scalar ['a'] true, .key, .scalar ['b'] true, .value, .scalar ['c'] true, .blockEnd] :=
    Reading.eq_ok_of_toOption (by decide +kernel)
  have htree : Yaml.readDocument [.blockMapping, .key, .scalar ['1'] true, .value, .scalar ['a'] true, .key,
      .scalar ['b'] true, .value, .scalar ['c'] true, .blockEnd] = .ok (some (.mapping .mapping
        [(.scalar .int ['1'], .scalar .string ['a']), (.scalar .string ['b'], .scalar .string ['c'])])) := rfl
  have hvalue : Yaml.Node.valueOf (.mapping .mapping
      [(.scalar .int ['1'], .scalar .string ['a']), (.scalar .string ['b'], .scalar .string ['c'])]) =
        .ok (.mapping [(.int 1, .string ['a']), (.string ['b'], .string ['c'])]) := by cbv
  have hfound := contentAt_settingsDisk (read_of_tree htokens htree hvalue) (by decide)
    (Reading.eq_ok_of_toOption (by decide +kernel))
  refine ⟨_, hfound, by decide, .wrongType "keys of several types".toList, ?_, rfl, rfl⟩
  rw [outcome_load, hfound]
  rfl

end Settings
end Sitewright
