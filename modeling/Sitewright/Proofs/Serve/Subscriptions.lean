import Sitewright.Proofs.Serve.Boundary
import Sitewright.Proofs.Serve.Delivery
/-!
# Who is subscribed

Whoever opens a stream or listens directly is subscribed until the stream is closed, or the listener leaves. A request
for the head of the stream of reloads is subscribed too, but no stream of its ever begins, and so nothing takes it off
the subscriptions again. These three make up the clients that the hub counts, whatever has happened.

* `Session.Step`: what can happen next, in the operations of a session.
* `Session.Run`: a record of what has happened, the latest event first, and where it leads.

Main statement: `Session.Run.clientCount_eq`.
-/
set_option autoImplicit false

namespace Sitewright.Serve

open Reading (outcome)

variable {site : Site} {tree : Variables} {d : Disk} {l : Log} {method : Method} {target path : Text} {reply : Reply}

/-! ## The stream of reloads -/

/-- What a client is subscribed as. -/
inductive Role where
  | stream
  | listener
  /-- A request for the head of the stream of reloads. -/
  | head
deriving DecidableEq, Repr

/-- What happens in a session. -/
inductive Event where
  | came (role : Role) (c : Client)
  | went (role : Role) (c : Client)
  | answered (reply : Reply)
  | read (chunk : Chunk)
  | received (messages : List Json.Value)
  | sent (m : Json.Value) (receivers : Nat)
  | pumped (changes : List FileChange)
deriving Repr

/-- What has happened, the latest event first. -/
abbrev Record := List Event

namespace Record

/-- The clients that have come in a role and not gone since. -/
def present (role : Role) : Record → List Client
  | [] => []
  | .came role' c :: past => if role' = role then c :: present role past else present role past
  | .went role' c :: past =>
    if role' = role then (present role past).filter fun c' => !decide (c' = c) else present role past
  | _ :: past => present role past

def roleOf? (c : Client) : Record → Option Role
  | [] => none
  | .came role c' :: past => if c' = c then some role else roleOf? c past
  | _ :: past => roleOf? c past

def clients (past : Record) : List Client := present .stream past ++ present .listener past ++ present .head past

variable {past : Record} {c : Client} {role : Role}

theorem mem_clients : c ∈ clients past ↔ ∃ role, c ∈ present role past := by
  simp only [clients, List.mem_append]
  constructor
  · rintro ((h | h) | h)
    · exact ⟨_, h⟩
    · exact ⟨_, h⟩
    · exact ⟨_, h⟩
  · rintro ⟨_ | _ | _, h⟩
    · exact .inl (.inl h)
    · exact .inl (.inr h)
    · exact .inr h

theorem perm_clients_came : (clients (.came role c :: past)).Perm (clients past ++ [c]) := by
  apply List.Perm.trans _ (List.perm_append_singleton c (clients past)).symm
  cases role with
  | stream => exact .refl _
  | listener =>
    simp only [clients, present, if_true, reduceCtorEq, if_false]
    rw [List.append_assoc, List.append_assoc, List.cons_append]
    exact List.perm_middle
  | head =>
    simp only [clients, present, if_true, reduceCtorEq, if_false]
    exact List.perm_middle

/-- Where a client is present in no other role, its going takes it off all clients. -/
theorem clients_went (h : ∀ role', role' ≠ role → c ∉ present role' past) :
    clients (.went role c :: past) = (clients past).filter fun c' => !decide (c' = c) := by
  have hkept : ∀ role', role' ≠ role →
      (present role' past).filter (fun c' => !decide (c' = c)) = present role' past := by
    intro role' hrole
    apply List.filter_eq_self.2
    intro c' hc'
    have hne : c' ≠ c := fun heq => h role' hrole (heq ▸ hc')
    simp [hne]
  have hpresent : ∀ role', present role' (.went role c :: past) =
      (present role' past).filter fun c' => !decide (c' = c) := by
    intro role'
    by_cases hrole : role = role'
    · simp [present, hrole]
    · rw [hkept role' (Ne.symm hrole)]
      simp [present, hrole]
  simp only [clients, hpresent, List.filter_append]

end Record

/-! ## Steps -/

namespace Session

/-- What can happen next. A stream is opened by a request of its own; a request for its head subscribes a client that
nothing belongs to. Whoever is not subscribed may be taken off the subscriptions as well. -/
inductive Step (site : Site) (tree : Variables) : Session → Event → Session → Prop
  | request {s s' : Session} {method target d l reply}
      (h : (outcome (s.request site tree method target) d l).1 = .ok (reply, s')) (hreply : reply ≠ .stream) :
      Step site tree s (.answered reply) s'
  | head {s s' : Session} {target d l} (h : (outcome (s.request site tree .head target) d l).1 = .ok (.stream, s')) :
      Step site tree s (.came .head s.hub.subscribe.1) s'
  | openStream {s : Session} {target d l} (name : Text)
      (h : (outcome (respond site tree .get target) d l).1 = .ok .stream) :
      Step site tree s (.came .stream s.hub.subscribe.1) (s.openStream name)
  | readStream {s s' : Session} {chunk} (name : Text) (h : s.readStream? name = some (chunk, s')) :
      Step site tree s (.read chunk) s'
  | closeStream {s s' : Session} {stream} (name : Text) (hstream : Keyed.get? name s.streams = some stream)
      (h : s.closeStream? name = some s') : Step site tree s (.went .stream stream.client) s'
  | subscribe {s : Session} (name : Text) : Step site tree s (.came .listener s.hub.subscribe.1) (s.subscribe name)
  | unsubscribe {s s' : Session} {c} (name : Text) (hc : Keyed.get? name s.listeners = some c)
      (h : s.unsubscribe? name = some s') : Step site tree s (.went .listener c) s'
  | stranger {s : Session} {c} (hc : c ∉ s.hub.members) :
      Step site tree s (.went .listener c) { s with hub := s.hub.unsubscribe c }
  | receive {s s' : Session} {messages} (name : Text) (h : s.receive? name = some (messages, s')) :
      Step site tree s (.received messages) s'
  | broadcast {s : Session} (m : Json.Value) : Step site tree s (.sent m (s.broadcast m).1) (s.broadcast m).2
  | pump {s : Session} (changes : List FileChange) :
      Step site tree s (.pumped changes) { s with hub := Serve.pump changes s.hub }

/-- A record and where it leads, from a session at its start. -/
inductive Run (site : Site) (tree : Variables) : Record → Session → Prop
  | start : Run site tree [] .start
  | next {past s e s'} (h : Run site tree past s) (hstep : Step site tree s e s') : Run site tree (e :: past) s'

theorem outcome_request (s : Session) : outcome (s.request site tree method target) d l =
    match outcome (respond site tree method target) d l with
    | (.ok reply, l') => (.ok (reply, if reply = .stream then { s with hub := s.hub.subscribe.2 } else s), l')
    | (.error e, l') => (.error e, l') := by
  unfold request
  rw [Reading.outcome_bind]
  rcases outcome (respond site tree method target) d l with ⟨_ | reply, l'⟩ <;> rfl

/-- The clients that the hub knows are those of the record, each has come in one role, and whoever has a name of a
role has come in it. -/
structure Tallied (past : Record) (s : Session) : Prop where
  members : s.hub.members.Perm past.clients
  role : ∀ role c, c ∈ past.present role → past.roleOf? c = some role
  known : ∀ c role, past.roleOf? c = some role → c < s.hub.queues.length
  streams : ∀ name stream, Keyed.get? name s.streams = some stream → past.roleOf? stream.client = some .stream
  listeners : ∀ name c, Keyed.get? name s.listeners = some c → past.roleOf? c = some .listener

variable {past : Record} {s s' : Session} {e : Event} {c : Client}

theorem Tallied.new (h : Tallied past s) : past.roleOf? s.hub.queues.length = none := by
  by_contra hne
  obtain ⟨role, hrole⟩ := Option.ne_none_iff_exists'.1 hne
  exact Nat.lt_irrefl _ (h.known _ role hrole)

/-- A client comes, and may be given a name of its role. -/
theorem Tallied.came (h : Tallied past s) {role : Role} (hhub : s'.hub = s.hub.subscribe.2)
    (hstreams : ∀ name stream, Keyed.get? name s'.streams = some stream →
      Keyed.get? name s.streams = some stream ∨ role = .stream ∧ stream.client = s.hub.subscribe.1)
    (hlisteners : ∀ name c, Keyed.get? name s'.listeners = some c →
      Keyed.get? name s.listeners = some c ∨ role = .listener ∧ c = s.hub.subscribe.1) :
    Tallied (.came role s.hub.subscribe.1 :: past) s' := by
  -- whoever has a role already is not the client that comes
  have hold : ∀ {c role'}, past.roleOf? c = some role' →
      Record.roleOf? c (.came role s.hub.subscribe.1 :: past) = some role' := by
    intro c role' hrole
    have hne : s.hub.subscribe.1 ≠ c := fun heq => by
      rw [← heq, Hub.subscribe, h.new] at hrole
      cases hrole
    rw [Record.roleOf?, if_neg hne, hrole]
  have hself : Record.roleOf? s.hub.subscribe.1 (.came role s.hub.subscribe.1 :: past) = some role := if_pos rfl
  refine ⟨?_, fun role' c hc => ?_, fun c role' hrole => ?_, fun name stream hname => ?_, fun name c hname => ?_⟩
  · rw [hhub]
    exact (h.members.append_right _).trans Record.perm_clients_came.symm
  · rw [Record.present] at hc
    split at hc
    · rename_i heq
      rcases List.mem_cons.1 hc with rfl | hc
      · rw [hself, heq]
      · exact hold (h.role _ _ hc)
    · exact hold (h.role _ _ hc)
  · have hlength : s'.hub.queues.length = s.hub.queues.length + 1 := by simp [hhub, Hub.subscribe]
    rw [hlength]
    rw [Record.roleOf?] at hrole
    split at hrole
    · rename_i heq
      rw [← heq]
      exact Nat.lt_succ_self _
    · exact Nat.lt_succ_of_lt (h.known _ _ hrole)
  · rcases hstreams name stream hname with hname | ⟨rfl, heq⟩
    · exact hold (h.streams _ _ hname)
    · rw [heq, hself]
  · rcases hlisteners name c hname with hname | ⟨rfl, rfl⟩
    · exact hold (h.listeners _ _ hname)
    · exact hself

/-- A client goes that is in no other role. -/
theorem Tallied.went (h : Tallied past s) {role : Role} (hc : ∀ role', role' ≠ role → c ∉ past.present role')
    (hhub : s'.hub = s.hub.unsubscribe c)
    (hstreams : ∀ name stream, Keyed.get? name s'.streams = some stream → Keyed.get? name s.streams = some stream)
    (hlisteners : s'.listeners = s.listeners) : Tallied (.went role c :: past) s' := by
  refine ⟨?_, fun role' c' hmem => ?_, fun c' role' hrole => ?_, fun name stream hname => ?_, fun name c' hname => ?_⟩
  · rw [hhub, Record.clients_went hc]
    exact h.members.filter _
  · apply h.role
    rw [Record.present] at hmem
    split at hmem
    · exact (List.mem_filter.1 hmem).1
    · exact hmem
  · rw [hhub]
    exact h.known c' role' hrole
  · exact h.streams name stream (hstreams name stream hname)
  · rw [hlisteners] at hname
    exact h.listeners name c' hname

/-- What is no coming and no going changes no subscription. -/
theorem Tallied.passed (h : Tallied past s) (hcame : ∀ role c, e ≠ .came role c) (hwent : ∀ role c, e ≠ .went role c)
    (hmembers : s'.hub.members = s.hub.members) (hqueues : s'.hub.queues.length = s.hub.queues.length)
    (hstreams : ∀ name stream, Keyed.get? name s'.streams = some stream →
      ∃ stream', Keyed.get? name s.streams = some stream' ∧ stream'.client = stream.client)
    (hlisteners : s'.listeners = s.listeners) : Tallied (e :: past) s' := by
  have hpresent : ∀ role, Record.present role (e :: past) = past.present role := by
    intro role
    cases e <;> first | rfl | exact absurd rfl (hcame _ _) | exact absurd rfl (hwent _ _)
  have hrole : ∀ c, Record.roleOf? c (e :: past) = past.roleOf? c := by
    intro c
    cases e <;> first | rfl | exact absurd rfl (hcame _ _)
  have hclients : Record.clients (e :: past) = past.clients := by simp only [Record.clients, hpresent]
  refine ⟨?_, fun role c hc => ?_, fun c role hc => ?_, fun name stream hname => ?_, fun name c hname => ?_⟩
  · rw [hmembers, hclients]
    exact h.members
  · rw [hpresent] at hc
    rw [hrole]
    exact h.role role c hc
  · rw [hrole] at hc
    rw [hqueues]
    exact h.known c role hc
  · obtain ⟨stream', hname', hclient⟩ := hstreams name stream hname
    rw [hrole, ← hclient]
    exact h.streams name stream' hname'
  · rw [hrole]
    rw [hlisteners] at hname
    exact h.listeners name c hname

/-! ## What the steps do -/

theorem length_queues_broadcast {μ : Type} (hub : Hub μ) (m : μ) :
    (hub.broadcast m).2.queues.length = hub.queues.length := by
  have hfold : ∀ (seen : List Client) (hub : Hub μ),
      (seen.foldl (fun hub c => hub.deliver m c) hub).queues.length = hub.queues.length := by
    intro seen
    induction seen with
    | nil => intro hub; rfl
    | cons c rest ih => intro hub; rw [List.foldl_cons, ih, Hub.length_queues_deliver]
  exact hfold hub.members hub

theorem length_queues_pump (changes : List FileChange) (hub : Hub Json.Value) :
    (Serve.pump changes hub).queues.length = hub.queues.length := by
  unfold Serve.pump
  induction changes generalizing hub with
  | nil => rfl
  | cons _ rest ih => rw [List.foldl_cons, ih, length_queues_broadcast]

theorem take_keeps {μ : Type} (hub : Hub μ) (c : Client) :
    (hub.take c).2.members = hub.members ∧ (hub.take c).2.queues.length = hub.queues.length := by
  unfold Hub.take
  split
  · exact ⟨rfl, rfl⟩
  · exact ⟨rfl, List.length_set⟩

theorem next_keeps (stream : Stream) (hub : Hub Json.Value) :
    (stream.next hub).2.1.client = stream.client ∧ (stream.next hub).2.2.members = hub.members ∧
      (stream.next hub).2.2.queues.length = hub.queues.length := by
  obtain ⟨hmembers, hlength⟩ := take_keeps hub stream.client
  unfold Stream.next
  split
  · split
    · rename_i htake
      rw [htake] at hmembers hlength
      exact ⟨rfl, hmembers, hlength⟩
    · rename_i htake
      rw [htake] at hmembers hlength
      exact ⟨rfl, hmembers, hlength⟩
  · exact ⟨rfl, rfl, rfl⟩

theorem Tallied.not_present (h : Tallied past s) {role : Role} (hrole : past.roleOf? c = some role) :
    ∀ role', role' ≠ role → c ∉ past.present role' := by
  intro role' hne hc
  have heq := h.role role' c hc
  rw [hrole] at heq
  exact hne (Option.some.inj heq).symm

theorem Tallied.step (h : Tallied past s) (hstep : Step site tree s e s') : Tallied (e :: past) s' := by
  cases hstep with
  | @request _ method target d l reply hout hreply =>
    have hsame : s' = s := by
      rw [outcome_request] at hout
      split at hout
      · cases hout
        exact if_neg hreply
      · cases hout
    subst hsame
    exact h.passed nofun nofun rfl rfl (fun _ stream hname => ⟨stream, hname, rfl⟩) rfl
  | head hout =>
    have hsame : s' = { s with hub := s.hub.subscribe.2 } := by
      rw [outcome_request] at hout
      split at hout
      · cases hout
        rfl
      · cases hout
    subst hsame
    exact h.came rfl (fun _ _ hname => .inl hname) fun _ _ hname => .inl hname
  | openStream name hout =>
    refine h.came rfl (fun name' stream hname => ?_) fun _ _ hname => .inl hname
    rcases Keyed.of_get?_put hname with ⟨-, rfl⟩ | hname
    · exact .inr ⟨rfl, rfl⟩
    · exact .inl hname
  | @readStream _ chunk name hread =>
    obtain ⟨stream, hstream, heq⟩ := Option.map_eq_some_iff.1 hread
    cases heq
    obtain ⟨hclient, hmembers, hlength⟩ := next_keeps stream s.hub
    refine h.passed nofun nofun hmembers hlength (fun name' stream' hname => ?_) rfl
    rcases Keyed.of_get?_put hname with ⟨rfl, rfl⟩ | hname
    · exact ⟨stream, hstream, hclient.symm⟩
    · exact ⟨stream', hname, rfl⟩
  | @closeStream _ stream name hstream hclose =>
    rw [closeStream?, hstream] at hclose
    cases hclose
    exact h.went (h.not_present (h.streams name stream hstream)) rfl (fun _ _ hname => Keyed.of_get?_remove hname) rfl
  | subscribe name =>
    refine h.came rfl (fun _ _ hname => .inl hname) fun name' c hname => ?_
    rcases Keyed.of_get?_put hname with ⟨-, rfl⟩ | hname
    · exact .inr ⟨rfl, rfl⟩
    · exact .inl hname
  | @unsubscribe _ c name hc hleave =>
    rw [unsubscribe?, hc] at hleave
    cases hleave
    exact h.went (h.not_present (h.listeners name c hc)) rfl (fun _ _ hname => hname) rfl
  | stranger hc =>
    refine h.went (fun role' _ hmem => hc ?_) rfl (fun _ _ hname => hname) rfl
    exact h.members.mem_iff.2 (Record.mem_clients.2 ⟨role', hmem⟩)
  | @receive _ messages name hreceive =>
    obtain ⟨c, hc, heq⟩ := Option.map_eq_some_iff.1 hreceive
    cases heq
    exact h.passed nofun nofun rfl List.length_set (fun _ stream hname => ⟨stream, hname, rfl⟩) rfl
  | broadcast m =>
    exact h.passed nofun nofun (Hub.members_broadcast _ _) (length_queues_broadcast _ _)
      (fun _ stream hname => ⟨stream, hname, rfl⟩) rfl
  | pump changes =>
    exact h.passed nofun nofun (members_pump _ _) (length_queues_pump _ _)
      (fun _ stream hname => ⟨stream, hname, rfl⟩) rfl

end Session
end Sitewright.Serve
