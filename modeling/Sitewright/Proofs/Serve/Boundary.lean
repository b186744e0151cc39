import Sitewright.Serve.Server
import Sitewright.Proofs.Serve.Mapping
/-!
# Failures behind a request

A page that cannot be assembled is shown as its fragment. What fails before its fragment is a text gets past that
guard, and the answer is the status of a failure: the script of the page cannot be looked for, the path of the
fragment cannot be used, or its bytes are no text. Nothing else does.

* `Asks`: a request that gets as far as the pages.
* `Unservable`: what is wrong with a page whose request fails.

Main statement: `respond_fails_iff`.
-/
set_option autoImplicit false

namespace Sitewright.Serve

open Reading (outcome outcome_bind outcome_attempt textIn outcome_textOf)

variable {site : Site} {tree : Variables} {d : Disk} {l : Log} {method : Method} {target path : Text}

/-! ## Requests -/

/-- A request for the page or the file at a path. -/
structure Asks (method : Method) (target path : Text) : Prop where
  reads : method = .get ∨ method = .head
  resource : (Target.ofRequest target).resource? = some path
  askable : isAskable path = true
  notReload : '/' :: path ≠ reloadPath

theorem Asks.unique {path' : Text} (h : Asks method target path) (h' : Asks method target path') : path = path' :=
  Option.some.inj (h.resource.symm.trans h'.resource)

theorem outcome_respond_of_asks (h : Asks method target path) :
    outcome (respond site tree method target) d l =
      match outcome (servePath site tree path) d l with
      | (.ok reply, l') => (.ok reply, l')
      | (.error _, l') => (.ok (.status 500), l') := by
  unfold respond
  simp only [h.resource, h.askable, Bool.not_true, Bool.false_eq_true, if_false, h.notReload]
  -- both methods end in the same guard, so the page or file at the path decides
  rcases h.reads with rfl | rfl
  all_goals
    rw [outcome_bind, outcome_attempt]
    rcases outcome (servePath site tree path) d l with ⟨_ | reply, l'⟩ <;> rfl

/-- A request for the stream of reloads. -/
structure AsksReload (method : Method) (target : Text) : Prop where
  reads : method = .get ∨ method = .head
  resource : ∃ path, (Target.ofRequest target).resource? = some path ∧ '/' :: path = reloadPath

/-- Any other request is answered at once, with neither a file nor the status of a failure. -/
theorem outcome_respond_at_once (site : Site) (tree : Variables) (d : Disk) (l : Log)
    (h : ∀ path, ¬ Asks method target path) :
    ∃ reply, outcome (respond site tree method target) d l = (.ok reply, l) ∧ reply ≠ .status 500 ∧
      (∀ bytes, reply ≠ .file bytes) ∧ (reply = .stream ↔ AsksReload method target) := by
  have hother : ∀ {path}, (Target.ofRequest target).resource? = some path → '/' :: path ≠ reloadPath →
      ¬ AsksReload method target := by
    rintro path hresource hne ⟨-, path', hresource', hreload⟩
    cases hresource.symm.trans hresource'
    exact hne hreload
  unfold respond
  cases hresource : (Target.ofRequest target).resource? with
  | none =>
    have hnot : ¬ AsksReload method target := fun ⟨_, path, hpath, _⟩ => by rw [hresource] at hpath; cases hpath
    simp only [hresource]
    split
    · exact ⟨_, rfl, by decide, nofun, iff_of_false nofun hnot⟩
    · exact ⟨_, rfl, nofun, nofun, iff_of_false nofun hnot⟩
  | some path =>
    simp only [hresource]
    by_cases haskable : isAskable path = true
    · simp only [haskable, Bool.not_true, Bool.false_eq_true, if_false]
      by_cases hreload : '/' :: path = reloadPath
      · have hpath : ∃ path, (Target.ofRequest target).resource? = some path ∧ '/' :: path = reloadPath :=
          ⟨path, hresource, hreload⟩
        simp only [hreload, if_true]
        cases method with
        | get => exact ⟨_, rfl, by decide, nofun, iff_of_true rfl ⟨.inl rfl, hpath⟩⟩
        | head => exact ⟨_, rfl, by decide, nofun, iff_of_true rfl ⟨.inr rfl, hpath⟩⟩
        | options => exact ⟨_, rfl, by decide, nofun, iff_of_false nofun fun hasks => hasks.reads.elim nofun nofun⟩
        | other => exact ⟨_, rfl, by decide, nofun, iff_of_false nofun fun hasks => hasks.reads.elim nofun nofun⟩
      · have hnot := hother hresource hreload
        cases method with
        | get => exact absurd ⟨.inl rfl, hresource, haskable, hreload⟩ (h path)
        | head => exact absurd ⟨.inr rfl, hresource, haskable, hreload⟩ (h path)
        | options => exact ⟨_, rfl, by decide, nofun, iff_of_false nofun hnot⟩
        | other => exact ⟨_, rfl, by decide, nofun, iff_of_false nofun hnot⟩
    · -- the path of the stream of reloads could be asked for
      have hnot : ¬ AsksReload method target :=
        hother hresource fun hreload => haskable ((List.cons.inj hreload).2 ▸ by decide)
      simp only [haskable, Bool.not_false, if_true]
      exact ⟨_, rfl, by decide, nofun, iff_of_false nofun hnot⟩

theorem outcome_respond_of_not_asks (site : Site) (tree : Variables) (d : Disk) (l : Log)
    (h : ∀ path, ¬ Asks method target path) :
    ∃ reply, outcome (respond site tree method target) d l = (.ok reply, l) ∧ reply ≠ .status 500 := by
  obtain ⟨reply, hreply, hne, -, -⟩ := outcome_respond_at_once site tree d l h
  exact ⟨reply, hreply, hne⟩

/-! ## Pages -/

/-- A page whose request fails. -/
inductive Unservable (site : Site) (d : Disk) (name : Text) : Prop
  /-- Its script cannot be looked for. -/
  | script {e : FileProblem} (h : d.isFile ((site.pagesRoot.join name).join site.pageScript) = .error e)
  /-- The path of its fragment holds a null character. -/
  | path (h : d.readBytes ((site.pagesRoot.join name).join site.pageFile) = .error .nulByte)
  /-- Its fragment is no text. -/
  | encoding {bytes : Bytes} {e : Utf8.Problem}
      (hread : d.readBytes ((site.pagesRoot.join name).join site.pageFile) = .ok bytes)
      (hdecode : Utf8.decode bytes = .error e)

/-- A page is rendered from the text of its fragment; whatever fails behind that, the fragment is shown. -/
theorem outcome_renderPage (p : Page) :
    outcome (renderPage site tree p) d l =
      match textIn d p.fragment with
      | .error e => (if e.isOfFiles then .ok none else .error e, l)
      | .ok fragment =>
        match outcome (Assembly.assemble site tree p.name false fragment) d l with
        | (.ok html, l') => (.ok (some (withReloadClient html)), l')
        | (.error _, l') => (.ok (some (withReloadClient fragment)), l' ++
            [⟨.error, "Assembly failed for ".toList ++ p.fragment.toText ++ "; serving raw fragment".toList⟩]) := by
  unfold renderPage
  rw [outcome_bind, outcome_attempt, outcome_textOf]
  cases textIn d p.fragment with
  | error e =>
    simp only
    cases e.isOfFiles <;> rfl
  | ok fragment =>
    simp only
    rw [outcome_bind, outcome_attempt]
    rcases outcome (Assembly.assemble site tree p.name false fragment) d l with ⟨_ | html, l'⟩ <;> rfl

theorem outcome_serveStatic (site : Site) (d : Disk) (l : Log) (path : Text) :
    ∃ reply, outcome (serveStatic site path) d l = (.ok reply, l) ∧ reply ≠ .status 500 := by
  unfold serveStatic
  simp only
  split
  · exact ⟨_, rfl, by decide⟩
  · rw [outcome_bind, Reading.outcome_read]
    simp only
    cases d.readBytes (site.root.join (sanitize path)) with
    | error e => exact ⟨_, rfl, by decide⟩
    | ok bytes => exact ⟨_, rfl, Reply.noConfusion⟩

theorem unservable_of_madeOn {name : Text} {e : Failure} (h : Page.madeOn site d name = .error e) :
    Unservable site d name := by
  unfold Page.madeOn at h
  cases hscript : d.isFile ((site.pagesRoot.join name).join site.pageScript) with
  | error problem => exact .script hscript
  | ok there =>
    rw [hscript] at h
    cases h

/-- Where its script can be looked for, a page is unservable if its fragment cannot be read for another reason
than that it is not there. -/
theorem unservable_iff {name : Text} {p : Page} (hmade : Page.madeOn site d name = .ok p) :
    Unservable site d name ↔ ∃ e, textIn d p.fragment = .error e ∧ e.isOfFiles = false := by
  obtain ⟨-, -, hfragment, -⟩ := Page.of_madeOn hmade
  rw [hfragment]
  unfold textIn
  constructor
  · rintro (hscript | hpath | @⟨bytes, e, hread, hdecode⟩)
    · unfold Page.madeOn at hmade
      rw [hscript] at hmade
      cases hmade
    · exact ⟨.file .nulByte, by rw [hpath], rfl⟩
    · exact ⟨.notUtf8 e, by rw [hread]; simp only [hdecode], rfl⟩
  · rintro ⟨e, he, hfiles⟩
    cases hread : d.readBytes ((site.pagesRoot.join name).join site.pageFile) with
    | error problem =>
      rw [hread] at he
      cases he
      cases problem with
      | flaw flaw path => cases hfiles
      | nulByte => exact .path hread
    | ok bytes =>
      rw [hread] at he
      cases hdecode : Utf8.decode bytes with
      | error problem => exact .encoding hread hdecode
      | ok s =>
        simp only [hdecode] at he
        cases he

theorem outcome_servePath (path : Text) :
    outcome (servePath site tree path) d l =
      match pageNameAt? site ('/' :: path) with
      | none => outcome (serveStatic site path) d l
      | some name =>
        match Page.madeOn site d name with
        | .error e => (.error e, l)
        | .ok p =>
          match outcome (renderPage site tree p) d l with
          | (.error e, l') => (.error e, l')
          | (.ok none, l') => outcome (serveStatic site path) d l'
          | (.ok (some html), l') => (.ok (.page html), l') := by
  unfold servePath
  rw [outcome_bind, outcome_pageAt]
  cases pageNameAt? site ('/' :: path) with
  | none => rfl
  | some name =>
    simp only
    cases Page.madeOn site d name with
    | error e => rfl
    | ok p =>
      simp only [Except.map]
      rw [outcome_bind]
      rcases outcome (renderPage site tree p) d l with ⟨_ | _ | html, l'⟩ <;> rfl

/-- A path fails just where its page is unservable, and is never answered with the status of a failure
otherwise. -/
theorem servePath_cases (site : Site) (tree : Variables) (d : Disk) (l : Log) (path : Text) :
    ((∃ e, (outcome (servePath site tree path) d l).1 = .error e) ∧
      ∃ name, pageNameAt? site ('/' :: path) = some name ∧ Unservable site d name) ∨
    ((∃ reply, (outcome (servePath site tree path) d l).1 = .ok reply ∧ reply ≠ .status 500) ∧
      ¬ ∃ name, pageNameAt? site ('/' :: path) = some name ∧ Unservable site d name) := by
  have hstatic : ∀ l', ∃ reply, (outcome (serveStatic site path) d l').1 = .ok reply ∧ reply ≠ .status 500 := by
    intro l'
    obtain ⟨reply, hreply, hne⟩ := outcome_serveStatic site d l' path
    exact ⟨reply, by rw [hreply], hne⟩
  rw [outcome_servePath]
  cases hname : pageNameAt? site ('/' :: path) with
  | none =>
    refine .inr ⟨hstatic l, ?_⟩
    rintro ⟨name, h, -⟩
    cases h
  | some name =>
    have honly : (∃ name', some name = some name' ∧ Unservable site d name') ↔ Unservable site d name :=
      ⟨fun ⟨_, h, hun⟩ => Option.some.inj h ▸ hun, fun h => ⟨name, rfl, h⟩⟩
    rw [honly]
    cases hmade : Page.madeOn site d name with
    | error e => exact .inl ⟨⟨e, by simp only [hmade]⟩, unservable_of_madeOn hmade⟩
    | ok p =>
      rw [unservable_iff hmade]
      simp only [hmade]
      rw [outcome_renderPage]
      cases htext : textIn d p.fragment with
      | error e =>
        cases hfiles : e.isOfFiles with
        | true =>
          refine .inr ⟨by simpa [hfiles] using hstatic l, ?_⟩
          rintro ⟨e', he, hfiles'⟩
          cases he
          rw [hfiles] at hfiles'
          cases hfiles'
        | false => exact .inl ⟨⟨e, by simp [hfiles]⟩, e, rfl, hfiles⟩
      | ok fragment =>
        refine .inr ⟨?_, ?_⟩
        · rcases hrun : outcome (Assembly.assemble site tree p.name false fragment) d l with ⟨_ | html, l'⟩
          · exact ⟨.page (withReloadClient fragment), by simp only [hrun], Reply.noConfusion⟩
          · exact ⟨.page (withReloadClient html), by simp only [hrun], Reply.noConfusion⟩
        · rintro ⟨e, he, -⟩
          cases he

theorem servePath_of_failed {p : Page} {fragment : Text}
    (hp : (outcome (pageAt site ('/' :: path)) d l).1 = .ok (some p)) (htext : textIn d p.fragment = .ok fragment)
    (hfails : ∃ e, (outcome (Assembly.assemble site tree p.name false fragment) d l).1 = .error e) :
    (outcome (servePath site tree path) d l).1 = .ok (.page (withReloadClient fragment)) := by
  obtain ⟨hname, hmade⟩ := pageAt_eq_some_iff.1 hp
  obtain ⟨e, he⟩ := hfails
  rw [outcome_servePath]
  simp only [hname, hmade, outcome_renderPage, htext]
  rcases hrun : outcome (Assembly.assemble site tree p.name false fragment) d l with ⟨_ | html, l'⟩
  · rfl
  · rw [hrun] at he
    cases he

/-! ## Answers -/

/-- Every request is answered. The answer is the status of a failure just where the request asks for a page that
is unservable; and where a page's fragment is a text from which no document can be assembled, the answer is the
fragment with the reload script. -/
theorem respond_fails_iff (site : Site) (tree : Variables) (d : Disk) (l : Log) (method : Method) (target : Text) :
    ∃ reply, (outcome (respond site tree method target) d l).1 = .ok reply ∧
      (reply = .status 500 ↔ ∃ path name, Asks method target path ∧ pageNameAt? site ('/' :: path) = some name ∧
        Unservable site d name) ∧
      ∀ path p fragment, Asks method target path → (outcome (pageAt site ('/' :: path)) d l).1 = .ok (some p) →
        textIn d p.fragment = .ok fragment →
        (∃ e, (outcome (Assembly.assemble site tree p.name false fragment) d l).1 = .error e) →
        reply = .page (withReloadClient fragment) := by
  by_cases hasks : ∃ path, Asks method target path
  · obtain ⟨path, hasks⟩ := hasks
    have hshown : ∀ path' p fragment, Asks method target path' →
        (outcome (pageAt site ('/' :: path')) d l).1 = .ok (some p) → textIn d p.fragment = .ok fragment →
        (∃ e, (outcome (Assembly.assemble site tree p.name false fragment) d l).1 = .error e) →
        (outcome (servePath site tree path) d l).1 = .ok (.page (withReloadClient fragment)) := by
      intro path' p fragment hasks' hp htext hfails
      obtain rfl := hasks.unique hasks'
      exact servePath_of_failed hp htext hfails
    have honly : (∃ path name, Asks method target path ∧ pageNameAt? site ('/' :: path) = some name ∧
        Unservable site d name) ↔ ∃ name, pageNameAt? site ('/' :: path) = some name ∧ Unservable site d name := by
      constructor
      · rintro ⟨path', name, hasks', hname⟩
        obtain rfl := hasks.unique hasks'
        exact ⟨name, hname⟩
      · rintro ⟨name, hname⟩
        exact ⟨path, name, hasks, hname⟩
    rw [outcome_respond_of_asks hasks, honly]
    rcases hrun : outcome (servePath site tree path) d l with ⟨r, l'⟩
    have hcases := servePath_cases site tree d l path
    rw [hrun] at hcases hshown
    rcases hcases with ⟨⟨e, he⟩, hunservable⟩ | ⟨⟨reply, hreply, hne⟩, hservable⟩
    · cases he
      refine ⟨_, rfl, iff_of_true rfl hunservable, fun path' p fragment hasks' hp htext hfails => ?_⟩
      cases hshown path' p fragment hasks' hp htext hfails
    · cases hreply
      refine ⟨reply, rfl, iff_of_false hne hservable, fun path' p fragment hasks' hp htext hfails => ?_⟩
      exact Except.ok.inj (hshown path' p fragment hasks' hp htext hfails)
  · rw [not_exists] at hasks
    obtain ⟨reply, hreply, hne⟩ := outcome_respond_of_not_asks site tree d l hasks
    refine ⟨reply, by rw [hreply], iff_of_false hne ?_, fun path p fragment h => absurd h (hasks path)⟩
    rintro ⟨path, name, h, -⟩
    exact hasks path h

/-- The project of two pages with one more page, whose fragment is given by its bytes. -/
def threePageDisk (fragment : Bytes) : Disk where
  tree :=
    let bad : Location := ["project".toList, "src".toList, "app".toList, "bad".toList]
    twoPageDisk.tree ++ [(bad, .directory), (bad ++ ["page.html".toList], .file fragment (.seconds 0))]
  here := []
  clock := 0

def thirdPage : Page := pageOfTwo "bad".toList "bad".toList

theorem asks_bad : Asks .get "/bad.html".toList "bad.html".toList :=
  ⟨.inl rfl, by cbv, by decide, by decide⟩

theorem pageNameAt?_bad : pageNameAt? twoPageSite "/bad.html".toList = some thirdPage.name := by
  have hname : Path.FileName "bad".toList := by decide
  exact pageNameAt?_html hname (by decide)

def hugeFragment : Text := "\x7b\x7brepeat 9223372036854775808\x7d\x7dx\x7b\x7b/repeat\x7d\x7d".toList

/-- The page that would grow beyond every size is shown as its fragment. -/
theorem respond_huge :
    (outcome (respond twoPageSite [] .get "/bad.html".toList) (threePageDisk (Utf8.encode hugeFragment)) []).1 =
      .ok (.page (withReloadClient hugeFragment)) := by
  have hmade : Page.madeOn twoPageSite (threePageDisk (Utf8.encode hugeFragment)) thirdPage.name =
      .ok thirdPage := by cbv
  have htext : textIn (threePageDisk (Utf8.encode hugeFragment)) thirdPage.fragment = .ok hugeFragment := by cbv
  have hexpand : Repeat.expand hugeFragment = .error .count := by cbv
  have hfails : ∃ e, (outcome (Assembly.assemble twoPageSite [] thirdPage.name false hugeFragment)
      (threePageDisk (Utf8.encode hugeFragment)) []).1 = .error e := by
    refine ⟨.overflow .count, ?_⟩
    rw [Assembly.assemble, outcome_bind, Assembly.expandRepeats, Reading.outcome_ofExcept, hexpand]
    rfl
  obtain ⟨reply, hreply, -, hshown⟩ := respond_fails_iff twoPageSite [] (threePageDisk (Utf8.encode hugeFragment))
    [] .get "/bad.html".toList
  rw [hreply, hshown _ _ _ asks_bad (pageAt_eq_some_iff.2 ⟨pageNameAt?_bad, hmade⟩) htext hfails]

/-- A page of a single byte that is no text gets past the guard, although its fragment is there. -/
theorem respond_undecodable :
    (outcome (pageAt twoPageSite "/bad.html".toList) (threePageDisk [255]) []).1 = .ok (some thirdPage) ∧
      (threePageDisk [255]).isFile thirdPage.fragment = .ok true ∧
      (outcome (respond twoPageSite [] .get "/bad.html".toList) (threePageDisk [255]) []).1 = .ok (.status 500) := by
  have hmade : Page.madeOn twoPageSite (threePageDisk [255]) thirdPage.name = .ok thirdPage := by cbv
  have hpage : pageNameAt? twoPageSite ('/' :: "bad.html".toList) = some thirdPage.name := pageNameAt?_bad
  have htext : textIn (threePageDisk [255]) thirdPage.fragment =
      .error (.notUtf8 ⟨255, 0, 1, .badStart⟩) := by cbv
  refine ⟨pageAt_eq_some_iff.2 ⟨pageNameAt?_bad, hmade⟩, by cbv, ?_⟩
  rw [outcome_respond_of_asks asks_bad, outcome_servePath]
  simp only [hpage, hmade, outcome_renderPage, htext]
  rfl

end Sitewright.Serve
