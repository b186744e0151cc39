import Sitewright.Proofs.Site.Loading
/-!
# Which value a setting has

A setting has the value of the highest layer that gives it one: the command line, the environment, the file, and below
them the default. A build works with the settings of all layers. The development server does so too, but takes an empty
host and the port zero as not given.

* `Layer`, `Settings.highest`: what is given to settings, and the values that settings have under several layers.
* `Action.given`, `Settings.writtenIn`: the layers of the command line and of a document.
* `Command.Uses`: a build works with what settings say.
* `Command.Ready`: nothing keeps the development server from starting.

Main statement: `Command.run_settles`.
-/
set_option autoImplicit false

namespace Sitewright

open Settings (contentAt membersIn settingOf? valueFor givenBy)

/-! ## Layers -/

abbrev Layer := Setting → Option Yaml.Value

def Action.given : Action → Layer
  | .build baseUrl _ _, .baseUrl => baseUrl.map .string
  | .build _ bundler _, .bundler => bundler.map .string
  | .build _ _ outDir, .outDir => outDir.map .string
  | .dev host _ _, .devHost => host.map .string
  | .dev _ port _, .devPort => port.map fun n => .scalar (.int n)
  | _, _ => none

namespace Settings

/-- What a document gives to settings: to each the value of the member that names it. -/
def writtenIn (found : Option Yaml.Value) : Layer := fun k =>
  (membersIn found).findSome? fun m => if settingOf? m.1 = some k then (valueFor k m.2).toOption else none

/-- The settings of some layers, the highest first: each has the value of the first layer that gives it one, or else
its default. -/
def highest (layers : List Layer) : Settings := fun k => (layers.findSome? fun layer => layer k).getD (default k)

theorem highest_nil : highest [] = default := rfl

theorem highest_cons (layer : Layer) (layers : List Layer) (k : Setting) :
    highest (layer :: layers) k = (layer k).getD (highest layers k) := by
  unfold highest
  rw [List.findSome?_cons]
  cases layer k <;> rfl

theorem highest_of_none {layer : Layer} {k : Setting} (h : layer k = none) (layers : List Layer) :
    highest (layer :: layers) k = highest layers k := by
  rw [highest_cons, h, Option.getD_none]

theorem writtenIn_eq_none {found : Option Yaml.Value} {k : Setting}
    (h : ∀ m ∈ membersIn found, settingOf? m.1 ≠ some k) : writtenIn found k = none :=
  List.findSome?_eq_none_iff.2 fun m hm => if_neg (h m hm)

/-- Where each member that names a setting gives it one value, that is what the document gives to it. -/
theorem writtenIn_eq_some {found : Option Yaml.Value} {k : Setting} {v : Yaml.Value}
    (h : ∀ m ∈ membersIn found, settingOf? m.1 = some k → valueFor k m.2 = .ok v)
    (hnamed : ∃ m ∈ membersIn found, settingOf? m.1 = some k) : writtenIn found k = some v := by
  obtain ⟨m, hm, hk⟩ := hnamed
  cases hfirst : writtenIn found k with
  | none =>
    have hnone := List.findSome?_eq_none_iff.1 hfirst m hm
    rw [if_pos hk, h m hm hk] at hnone
    cases hnone
  | some v' =>
    obtain ⟨m', hm', hv'⟩ := List.exists_of_findSome?_eq_some hfirst
    split at hv'
    · rename_i hk'
      rw [h m' hm' hk'] at hv'
      exact hv'.symm
    · cases hv'

theorem Follows.eq_highest {env : Environment} {found : Option Yaml.Value} {s : Settings} (h : Follows env found s) :
    s = highest [givenBy env, writtenIn found] := by
  funext k
  rw [highest_cons, highest_cons, highest_nil]
  cases hgiven : givenBy env k with
  | some v => exact h.environment k v hgiven
  | none =>
    by_cases hnamed : ∃ m ∈ membersIn found, settingOf? m.1 = some k
    · rw [writtenIn_eq_some (fun m hm hk => h.given m hm k hk hgiven) hnamed]
      rfl
    · have hothers : ∀ m ∈ membersIn found, settingOf? m.1 ≠ some k := fun m hm hk => hnamed ⟨m, hm, hk⟩
      rw [writtenIn_eq_none hothers]
      exact h.others k hothers hgiven

theorem givenBy_eq_none (env : Environment) {k : Setting} (hurl : k ≠ .baseUrl) (hport : k ≠ .devPort) :
    givenBy env k = none := by
  cases k <;> first | rfl | contradiction

end Settings

theorem Action.given_eq_none (a : Action) {k : Setting}
    (hk : k ∉ [Setting.baseUrl, .bundler, .outDir, .devHost, .devPort]) : a.given k = none := by
  simp only [List.mem_cons, List.not_mem_nil, or_false, not_or] at hk
  obtain ⟨hurl, hbundler, hout, hhost, hport⟩ := hk
  cases a <;> cases k <;> first | rfl | contradiction

namespace Command

open Settings (highest highest_cons highest_of_none writtenIn)

/-! ## Steps that come first -/

/-- A step that comes first has succeeded where the report is not that of its failure. -/
theorem exists_of_orReport {α : Type} {expected : Failure → Bool} {step : Job α} {next : α → Job Report}
    {w w' : Workspace} {r : Report} (h : Job.outcome (orReport expected step next) w = (.ok r, w'))
    (hr : ∀ words, r ≠ failed [] words) :
    ∃ a v, Job.outcome step w = (.ok a, v) ∧ Job.outcome (next a) v = (.ok r, w') := by
  rw [outcome_orReport] at h
  rcases hstep : Job.outcome step w with ⟨_ | a, v⟩
  · rw [hstep] at h
    simp only at h
    split at h
    · obtain ⟨hreport, -⟩ := Prod.mk.inj h
      exact absurd (Except.ok.inj hreport).symm (hr _)
    · cases h
  · rw [hstep] at h
    exact ⟨a, v, rfl, h⟩

theorem exists_of_withVariables {s : Settings} {root : Path} {next : Variables → Job Report} {w w' : Workspace}
    {r : Report} (h : Job.outcome (withVariables s root next) w = (.ok r, w')) (hr : ∀ words, r ≠ failed [] words) :
    ∃ file tree v, s.textOf .variablesPath = .ok file ∧
      Job.outcome (Job.look (Variable.load (root.join file))) w = (.ok tree, v) ∧
        Job.outcome (next tree) v = (.ok r, w') := by
  obtain ⟨file, v, hfile, h⟩ := Job.exists_of_bind_ok h
  rw [Job.outcome_ofExcept] at hfile
  obtain ⟨hread, rfl⟩ := Prod.mk.inj hfile
  obtain ⟨tree, v, htree, h⟩ := exists_of_orReport h hr
  exact ⟨file, tree, v, hread, htree, h⟩

/-! ## Builds -/

/-- A build works with what settings say: it publishes under their base address, writes to their directory and bundles
with their bundler. -/
structure Uses (bundlers : Build.Bundlers) (s : Settings) (root : Path) (site : Site) (bundler : Build.Bundler) :
    Prop where
  address : site.baseUrl = s.baseAddress
  directory : ∃ out, s .outDir = .string out ∧ site.outRoot = root.join out
  bundler : ∃ name, s .bundler = .string name ∧ bundlers.find name = .ok bundler

theorem eq_of_textOf {s : Settings} {k : Setting} {t : Text} (h : s.textOf k = .ok t) : s k = .string t := by
  unfold Settings.textOf at h
  split at h
  · rename_i hk
    rw [hk, Except.ok.inj h]
    rfl
  · cases h

theorem eq_of_bundlerOf {bundlers : Build.Bundlers} {s : Settings} {bundler : Build.Bundler}
    (h : bundlerOf bundlers s = .ok bundler) :
    ∃ name, s .bundler = .string name ∧ bundlers.find name = .ok bundler := by
  unfold bundlerOf at h
  split at h
  · rename_i name hk
    exact ⟨name, hk, h⟩
  · cases h
  · cases h

theorem of_site {s : Settings} {root : Path} {site : Site} (h : s.site root = .ok site) :
    site.baseUrl = s.baseAddress ∧ ∃ out, s .outDir = .string out ∧ site.outRoot = root.join out := by
  -- the directory of results is the fourteenth of the texts that are read
  iterate 13 obtain ⟨_, -, h⟩ := ok_of_bind h
  obtain ⟨out, hout, h⟩ := ok_of_bind h
  iterate 7 obtain ⟨_, -, h⟩ := ok_of_bind h
  cases h
  exact ⟨rfl, out, eq_of_textOf hout, rfl⟩

/-- A build that succeeds has run with a site and a bundler that are those of the settings. -/
theorem uses_of_build {bundlers : Build.Bundlers} {s : Settings} {root : Path} {w w' : Workspace} {r : Report}
    (h : Job.outcome (build bundlers s root) w = (.ok r, w')) (hr : r.status = 0) :
    ∃ site bundler tree built v, Uses bundlers s root site bundler ∧
      Job.outcome (Build.run bundlers site (some tree) (some bundler)) v = (.ok built, w') := by
  have hsucceeds : ∀ words, r ≠ failed [] words := by
    rintro words rfl
    cases hr
  obtain ⟨file, tree, v, -, -, h⟩ := exists_of_withVariables h hsucceeds
  obtain ⟨bundler, v₁, hbundler, h⟩ := exists_of_orReport h hsucceeds
  rw [Job.outcome_ofExcept] at hbundler
  obtain ⟨hfound, rfl⟩ := Prod.mk.inj hbundler
  obtain ⟨result, v₂, hwork, h⟩ := Job.exists_of_bind_ok h
  rw [Job.outcome_attempt] at hwork
  obtain ⟨hresult, rfl⟩ := Prod.mk.inj hwork
  cases result with
  | error e =>
    cases h
    cases hr
  | ok built =>
    obtain ⟨-, rfl⟩ := Prod.mk.inj h
    obtain ⟨site, v₃, hsite, hrun⟩ := Job.exists_of_bind_ok (Prod.ext (Except.ok.inj hresult) rfl)
    rw [Job.outcome_ofExcept] at hsite
    obtain ⟨hmade, rfl⟩ := Prod.mk.inj hsite
    obtain ⟨haddress, hdirectory⟩ := of_site hmade
    exact ⟨site, bundler, tree, built, _, ⟨haddress, hdirectory, eq_of_bundlerOf hfound⟩, hrun⟩

theorem overrideText_eq (s : Settings) (k : Setting) (t : Option Text) (k' : Setting) :
    overrideText s k t k' = (if k' = k then t.map .string else none).getD (s k') := by
  cases t with
  | none => simp [overrideText]
  | some t =>
    by_cases hk : k' = k
    · simp [overrideText, Settings.set, hk]
    · simp [overrideText, Settings.set, hk]

theorem overrideText_highest (baseUrl bundler outDir : Option Text) (layers : List Layer) :
    overrideText (overrideText (overrideText (highest layers) .baseUrl baseUrl) .bundler bundler) .outDir outDir =
      highest ((Action.build baseUrl bundler outDir).given :: layers) := by
  funext k
  rw [highest_cons, overrideText_eq, overrideText_eq, overrideText_eq]
  cases k <;> rfl

/-! ## The development server -/

/-- Nothing keeps the development server from starting: the variables can be read, and the directories that are not
watched are named by texts. -/
structure Ready (s : Settings) (root : Path) (watch : Bool) (w : Workspace) : Prop where
  readable : ∃ file tree, s.textOf .variablesPath = .ok file ∧
    (Reading.outcome (Variable.load (root.join file)) w.disk w.log).1 = .ok tree
  unwatched : watch = true → (∃ out, s.textOf .outDir = .ok out) ∧ ∃ tmp, s.textOf .tmpDir = .ok tmp

section

variable {s : Settings} {root : Path} {host : Option Text} {port : Option Int} {watch : Bool} {w : Workspace}

theorem ready_of_dev {w' : Workspace} {r : Report} {place : Listening}
    (h : Job.outcome (dev s root host port watch) w = (.ok r, w')) (hplace : r.listening = some place) :
    Ready s root watch w ∧ place = listeningOf s host port := by
  have hlistens : ∀ words, r ≠ failed [] words := by
    rintro words rfl
    cases hplace
  obtain ⟨file, tree, v, hfile, htree, h⟩ := exists_of_withVariables h hlistens
  have hvariables := congrArg Prod.fst htree
  cases watch with
  | false =>
    cases h
    cases hplace
    exact ⟨⟨⟨file, tree, hfile, hvariables⟩, nofun⟩, rfl⟩
  | true =>
    obtain ⟨out, v₁, hout, h⟩ := Job.exists_of_bind_ok h
    obtain ⟨tmp, v₂, htmp, h⟩ := Job.exists_of_bind_ok h
    rw [Job.outcome_ofExcept] at hout htmp
    cases h
    cases hplace
    exact ⟨⟨⟨file, tree, hfile, hvariables⟩,
      fun _ => ⟨⟨out, congrArg Prod.fst hout⟩, tmp, congrArg Prod.fst htmp⟩⟩, rfl⟩

theorem dev_of_ready (h : Ready s root watch w) :
    ∃ r w', Job.outcome (dev s root host port watch) w = (.ok r, w') ∧
      r.listening = some (listeningOf s host port) := by
  obtain ⟨⟨file, tree, hfile, htree⟩, hdirs⟩ := h
  refine ⟨⟨0, [], [], some (listeningOf s host port)⟩,
    { w with log := (Reading.outcome (Variable.load (root.join file)) w.disk w.log).2 }, ?_, rfl⟩
  unfold dev withVariables
  rw [Job.outcome_bind, Job.outcome_ofExcept, hfile]
  simp only
  rw [outcome_orReport, Job.outcome_look, htree]
  simp only
  cases watch with
  | false => rfl
  | true =>
    obtain ⟨⟨out, hout⟩, tmp, htmp⟩ := hdirs rfl
    rw [hout, htmp]
    rfl

theorem listeningOf_host (layers : List Layer) : (listeningOf (highest layers) host port).host =
    (if host = some [] then highest layers else highest ((Action.dev host port watch).given :: layers)) .devHost := by
  cases host with
  | none => rfl
  | some t => cases t <;> rfl

theorem listeningOf_port (layers : List Layer) : (listeningOf (highest layers) host port).port =
    (if port = some 0 then highest layers else highest ((Action.dev host port watch).given :: layers)) .devPort := by
  cases port with
  | none => rfl
  | some n =>
    by_cases hn : n = 0
    · simp [listeningOf, hn]
    · simp [listeningOf, hn, highest_cons, Action.given]

end

/-! ## All commands -/

/-- The settings that are loaded are those of the environment and of the document, which give values to none but the
base address and the port, and to what the document names. A build works with what the command line gives above them.
The development server, where nothing keeps it from starting, listens where the command line says, or else where they
say; an empty host and the port zero count as not given. -/
theorem run_settles (bundlers : Build.Bundlers) (env : Environment) (c : Command) (w : Workspace) {s : Settings} :
    let root := Path.ofLocation ((Path.ofText c.root).resolve w.disk.here)
    (Reading.outcome (Settings.load root c.config env) w.disk w.log).1 = .ok s →
    ∃ found, contentAt root c.config w.disk = .ok found ∧
      let lower := highest [givenBy env, writtenIn found]
      let all := highest [c.action.given, givenBy env, writtenIn found]
      s = lower ∧
      (∀ k ∉ [Setting.baseUrl, .bundler, .outDir, .devHost, .devPort], all k = highest [writtenIn found] k) ∧
      (∀ baseUrl bundler outDir, c.action = .build baseUrl bundler outDir →
        Job.outcome (run bundlers env c) w = Job.outcome (build bundlers all root) w ∧
        ∀ r w', Job.outcome (run bundlers env c) w = (.ok r, w') → r.status = 0 →
          ∃ site bundler tree built v, Uses bundlers all root site bundler ∧
            Job.outcome (Build.run bundlers site (some tree) (some bundler)) v = (.ok built, w')) ∧
      ∀ host port watch, c.action = .dev host port watch →
        Job.outcome (run bundlers env c) w = Job.outcome (dev lower root host port watch) w ∧
        ((∃ r w', Job.outcome (run bundlers env c) w = (.ok r, w') ∧ r.listening.isSome) ↔
          Ready lower root watch w) ∧
        ∀ r w' place, Job.outcome (run bundlers env c) w = (.ok r, w') → r.listening = some place →
          place.host = (if host = some [] then lower else all) .devHost ∧
          place.port = (if port = some 0 then lower else all) .devPort := by
  intro root hloaded
  obtain ⟨found, hfound, hfollows⟩ := Settings.follows_of_load hloaded
  have hlower := hfollows.eq_highest
  have hrun := outcome_run_loaded bundlers hloaded
  refine ⟨found, hfound, hlower, fun k hk => ?_, fun baseUrl bundler outDir haction => ?_,
    fun host port watch haction => ?_⟩
  · have hurl : k ≠ .baseUrl := by
      rintro rfl
      exact hk (by decide)
    have hport : k ≠ .devPort := by
      rintro rfl
      exact hk (by decide)
    exact (highest_of_none (c.action.given_eq_none hk) _).trans
      (highest_of_none (Settings.givenBy_eq_none env hurl hport) _)
  · rw [haction, carriedOut, hlower, overrideText_highest] at hrun
    rw [haction]
    exact ⟨hrun, fun r w' h hr => uses_of_build (hrun.symm.trans h) hr⟩
  · rw [haction, carriedOut, hlower] at hrun
    rw [haction]
    refine ⟨hrun, ⟨?_, fun hready => ?_⟩, fun r w' place h hplace => ?_⟩
    · rintro ⟨r, w', h, hlistens⟩
      obtain ⟨place, hplace⟩ := Option.isSome_iff_exists.1 hlistens
      exact (ready_of_dev (hrun.symm.trans h) hplace).1
    · obtain ⟨r, w', h, hplace⟩ := dev_of_ready hready
      exact ⟨r, w', hrun.trans h, by rw [hplace]; rfl⟩
    · obtain ⟨-, rfl⟩ := ready_of_dev (hrun.symm.trans h) hplace
      exact ⟨listeningOf_host _, listeningOf_port _⟩

/-- The port is given in the file and in the environment, the host on the command line: the server listens on the port
of the environment and on that host. -/
theorem run_settles_port : ∃ s, (Reading.outcome (Settings.load (Path.ofLocation ["project".toList]) none
    ⟨none, some ['8', '8']⟩) (Settings.settingsDisk "dev_port: 77".toList) []).1 = .ok s ∧
    ∃ r w' place, Job.outcome (run [] ⟨none, some ['8', '8']⟩ ⟨false, [], none, .dev (some ['x']) none false⟩)
      ⟨Settings.settingsDisk "dev_port: 77".toList, []⟩ = (.ok r, w') ∧ r.listening = some place ∧
        place.host = .string ['x'] ∧ place.port = .scalar (.int 88) := by
  have htokens : Yaml.tokens "dev_port: 77".toList = .ok [.blockMapping, .key, .scalar "dev_port".toList true, .value,
      .scalar ['7', '7'] true, .blockEnd] := Reading.eq_ok_of_toOption (by decide +kernel)
  have htree : Yaml.readDocument [.blockMapping, .key, .scalar "dev_port".toList true, .value, .scalar ['7', '7'] true,
      .blockEnd] = .ok (some (.mapping .mapping [(.scalar .string "dev_port".toList, .scalar .int ['7', '7'])])) := rfl
  have hvalue : Yaml.Node.valueOf (.mapping .mapping [(.scalar .string "dev_port".toList, .scalar .int ['7', '7'])]) =
      .ok (.mapping [(.string "dev_port".toList, .scalar (.int 77))]) := by cbv
  have hcontent := Settings.contentAt_settingsDisk (Settings.read_of_tree htokens htree hvalue) (by decide)
    (Reading.eq_ok_of_toOption (by decide +kernel))
  obtain ⟨s, hs⟩ : ∃ s, (Reading.outcome (Settings.load (Path.ofLocation ["project".toList]) none
      ⟨none, some ['8', '8']⟩) (Settings.settingsDisk "dev_port: 77".toList) []).1 = .ok s := by
    rw [Settings.outcome_load, hcontent]
    exact ⟨_, rfl⟩
  obtain ⟨found, hfound, -, -, -, hdev⟩ := run_settles [] ⟨none, some ['8', '8']⟩
    ⟨false, [], none, .dev (some ['x']) none false⟩ ⟨Settings.settingsDisk "dev_port: 77".toList, []⟩ hs
  obtain rfl := Except.ok.inj (hcontent.symm.trans hfound)
  obtain ⟨-, hstarts, hplaces⟩ := hdev _ _ _ rfl
  obtain ⟨r, w', hrun, hlistens⟩ := hstarts.2 ⟨⟨_, _, rfl, rfl⟩, fun hwatch => absurd hwatch Bool.false_ne_true⟩
  obtain ⟨place, hplace⟩ := Option.isSome_iff_exists.1 hlistens
  obtain ⟨hhost, hport⟩ := hplaces r w' place hrun hplace
  exact ⟨s, hs, r, w', place, hrun, hplace, hhost, hport⟩

def bareDisk : Disk where
  tree := [([], .directory), (["project".toList], .directory)]
  here := ["project".toList]
  clock := 0

/-- The port zero is given on the command line, and nothing anywhere else: the server listens on the default port. -/
theorem run_ignores_zero : ∃ c, parse ["dev".toList, "--port".toList, ['0'], "--no-watch".toList] = .ok c ∧
    contentAt (Path.ofLocation ["project".toList]) c.config bareDisk = .ok none ∧
      ∃ r w' place, Job.outcome (run [] ⟨none, none⟩ c) ⟨bareDisk, []⟩ = (.ok r, w') ∧
        r.listening = some place ∧ place.port = .scalar (.int 3000) ∧
          highest [c.action.given, givenBy ⟨none, none⟩, writtenIn none] .devPort = .scalar (.int 0) := by
  have hparse : parse ["dev".toList, "--port".toList, ['0'], "--no-watch".toList] =
      .ok ⟨false, ['.'], none, .dev none (some 0) false⟩ := by cbv
  exact ⟨_, hparse, rfl, _, _, _, rfl, rfl, rfl, rfl⟩

end Command
end Sitewright
