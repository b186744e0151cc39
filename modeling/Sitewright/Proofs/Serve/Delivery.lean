import Mathlib
import Sitewright.Serve.Session
/-!
# What clients get

Clients come, take messages and leave while the pump is at work: it fetches an event, looks once at the clients
that are subscribed, and then puts the message on their queues one by one. Between any two of these steps others
may come in. Whatever the order, a client is owed the messages of the broadcasts that looked while it was
subscribed, and it gets these and no others, in order.

* `Relay`: the hub, the events that wait, and where the pump stands.
* `Relay.Step`: what can happen next, in the operations of the hub.
* `Relay.Run`: a history, the latest action first, and where it leads from an empty hub.

Main statements: `Run.delivery`; one pump at work alone is one of the runs (`Run.pump`).
-/
set_option autoImplicit false

namespace Sitewright.Serve

/-! ## Hubs -/

namespace Hub

variable {μ : Type}

theorem queue_subscribe (hub : Hub μ) (c : Client) : hub.subscribe.2.queue c = hub.queue c := by
  simp only [subscribe, queue, List.getD_eq_getElem?_getD]
  rcases Nat.lt_trichotomy c hub.queues.length with h | rfl | h
  · rw [List.getElem?_append_left h]
  · simp
  · rw [List.getElem?_eq_none (by simp; omega), List.getElem?_eq_none (by omega)]

theorem length_queues_deliver (hub : Hub μ) (m : μ) (c : Client) :
    (hub.deliver m c).queues.length = hub.queues.length := List.length_set

theorem of_take {hub : Hub μ} {c : Client} {m : μ} (h : (hub.take c).1 = some m) :
    hub.queue c = m :: (hub.take c).2.queue c ∧ (∀ d, d ≠ c → (hub.take c).2.queue d = hub.queue d) ∧
      (hub.take c).2.members = hub.members ∧ (hub.take c).2.queues.length = hub.queues.length := by
  unfold take at h ⊢
  cases hqueue : hub.queue c with
  | nil =>
    rw [hqueue] at h
    cases h
  | cons first rest =>
    rw [hqueue] at h
    cases h
    have hc : c < hub.queues.length := by
      refine Nat.lt_of_not_le fun hle => ?_
      rw [queue, List.getD_eq_default _ _ hle] at hqueue
      cases hqueue
    refine ⟨?_, fun d hd => ?_, rfl, List.length_set⟩
    · simp [queue, hc]
    · simp [queue, hd.symm]

end Hub

/-! ## Histories -/

/-- What happens: a file changes, a client comes, leaves or takes a message, or the pump goes on. -/
inductive Action (ε μ : Type) where
  | change (e : ε)
  | subscribe (c : Client)
  | unsubscribe (c : Client)
  | take (c : Client) (m : μ)
  /-- The pump takes the oldest event. -/
  | fetch (e : ε)
  /-- The pump looks at the clients. -/
  | look (e : ε) (seen : List Client)
  /-- The pump puts the message of the event on the queue of a client. -/
  | put (e : ε) (c : Client)
  /-- The broadcast ends and tells how many clients it saw. -/
  | finish (e : ε) (n : Nat)
deriving Repr

/-- What has happened, the latest action first. -/
abbrev History (ε μ : Type) := List (Action ε μ)

namespace History

variable {ε μ : Type}

def isSubscribed (c : Client) : History ε μ → Bool
  | [] => false
  | .subscribe c' :: past => decide (c' = c) || isSubscribed c past
  | .unsubscribe c' :: past => !decide (c' = c) && isSubscribed c past
  | _ :: past => isSubscribed c past

def taken (c : Client) : History ε μ → List μ
  | [] => []
  | .take c' m :: past => taken c past ++ if c' = c then [m] else []
  | _ :: past => taken c past

/-- The messages that a client is owed: those of the broadcasts that looked while it was subscribed. -/
def due (message : ε → μ) (c : Client) : History ε μ → List μ
  | [] => []
  | .look e _ :: past => due message c past ++ if isSubscribed c past then [message e] else []
  | _ :: past => due message c past

def posted : History ε μ → List ε
  | [] => []
  | .change e :: past => posted past ++ [e]
  | _ :: past => posted past

def fetched : History ε μ → List ε
  | [] => []
  | .fetch e :: past => fetched past ++ [e]
  | _ :: past => fetched past

/-- The broadcasts: the event of each, and the clients that it saw. -/
def broadcasts : History ε μ → List (ε × List Client)
  | [] => []
  | .look e seen :: past => broadcasts past ++ [(e, seen)]
  | _ :: past => broadcasts past

def returned : History ε μ → List (ε × Nat)
  | [] => []
  | .finish e n :: past => returned past ++ [(e, n)]
  | _ :: past => returned past

end History

/-! ## Steps -/

/-- Where the pump stands. -/
inductive Stage (ε : Type) where
  | idle
  /-- It has taken an event. -/
  | fetched (e : ε)
  /-- It has looked at the clients, and has the message still to put on the queues of the rest. -/
  | putting (e : ε) (seen rest : List Client)
deriving Repr

namespace Stage

variable {ε μ : Type}

/-- The clients whose queues the message has still to be put on. -/
def rest : Stage ε → List Client
  | .putting _ _ rest => rest
  | _ => []

def pending (message : ε → μ) (c : Client) : Stage ε → List μ
  | .putting e _ rest => if c ∈ rest then [message e] else []
  | _ => []

/-- The event that has been taken and not been broadcast yet. -/
def inHand : Stage ε → List ε
  | .fetched e => [e]
  | _ => []

/-- What the broadcast that has not ended yet will tell. -/
def unreturned : Stage ε → List (ε × Nat)
  | .putting e seen _ => [(e, seen.length)]
  | _ => []

theorem pending_of_rest_nil {stage : Stage ε} (h : stage.rest = []) (message : ε → μ) (c : Client) :
    stage.pending message c = [] := by
  cases stage with
  | idle => rfl
  | fetched e => rfl
  | putting e seen rest =>
    obtain rfl : rest = [] := h
    rfl

end Stage

/-- The hub, the events that wait for the pump, and where the pump stands. -/
structure Relay (ε μ : Type) where
  hub : Hub μ
  events : List ε
  stage : Stage ε
deriving Repr

namespace Relay

variable {ε μ : Type} {message : ε → μ}

/-- What can happen next. The clients that the pump sees are in no order of their own. -/
inductive Step (message : ε → μ) : Relay ε μ → Action ε μ → Relay ε μ → Prop
  | change {hub events stage} (e : ε) :
      Step message ⟨hub, events, stage⟩ (.change e) ⟨hub, events ++ [e], stage⟩
  | subscribe {hub events stage} :
      Step message ⟨hub, events, stage⟩ (.subscribe hub.subscribe.1) ⟨hub.subscribe.2, events, stage⟩
  | unsubscribe {hub events stage} (c : Client) :
      Step message ⟨hub, events, stage⟩ (.unsubscribe c) ⟨hub.unsubscribe c, events, stage⟩
  | take {hub events stage c m} (h : (hub.take c).1 = some m) :
      Step message ⟨hub, events, stage⟩ (.take c m) ⟨(hub.take c).2, events, stage⟩
  | fetch {hub e events} :
      Step message ⟨hub, e :: events, .idle⟩ (.fetch e) ⟨hub, events, .fetched e⟩
  | look {hub events e seen} (h : seen.Perm hub.members) :
      Step message ⟨hub, events, .fetched e⟩ (.look e seen) ⟨hub, events, .putting e seen seen⟩
  | put {hub events e seen c rest} :
      Step message ⟨hub, events, .putting e seen (c :: rest)⟩ (.put e c)
        ⟨hub.deliver (message e) c, events, .putting e seen rest⟩
  | finish {hub events e seen} :
      Step message ⟨hub, events, .putting e seen []⟩ (.finish e seen.length) ⟨hub, events, .idle⟩

/-- A history and where it leads, from a hub without clients and a pump that waits. -/
inductive Run (message : ε → μ) : History ε μ → Relay ε μ → Prop
  | start : Run message [] ⟨Hub.empty, [], .idle⟩
  | next {past s a s'} (h : Run message past s) (hstep : Step message s a s') : Run message (a :: past) s'

/-! ## Queues -/

/-- The subscriptions are those of the history, and what each client has taken, what waits for it and what has
still to be put on its queue make up what it is owed. -/
structure Balanced (message : ε → μ) (past : History ε μ) (s : Relay ε μ) : Prop where
  mem_members : ∀ c, c ∈ s.hub.members ↔ past.isSubscribed c = true
  nodup_members : s.hub.members.Nodup
  members_lt : ∀ c ∈ s.hub.members, c < s.hub.queues.length
  nodup_rest : s.stage.rest.Nodup
  rest_lt : ∀ c ∈ s.stage.rest, c < s.hub.queues.length
  balance : ∀ c, past.taken c ++ s.hub.queue c ++ s.stage.pending message c = past.due message c

theorem balanced_start : Balanced message [] ⟨Hub.empty, [], .idle⟩ where
  mem_members _ := iff_of_false List.not_mem_nil Bool.false_ne_true
  nodup_members := List.nodup_nil
  members_lt _ h := absurd h List.not_mem_nil
  nodup_rest := List.nodup_nil
  rest_lt _ h := absurd h List.not_mem_nil
  balance _ := rfl

variable {past : History ε μ} {hub : Hub μ} {events : List ε} {stage : Stage ε} {e : ε} {c : Client}

theorem Balanced.subscribe (h : Balanced message past ⟨hub, events, stage⟩) :
    Balanced message (.subscribe hub.subscribe.1 :: past) ⟨hub.subscribe.2, events, stage⟩ := by
  have hnew : hub.queues.length ∉ hub.members := fun hmem => Nat.lt_irrefl _ (h.members_lt _ hmem)
  have hlength : hub.subscribe.2.queues.length = hub.queues.length + 1 := by simp [Hub.subscribe]
  refine ⟨fun c => ?_, ?_, fun c hc => ?_, h.nodup_rest, fun c hc => ?_, fun c => ?_⟩
  · rw [Hub.subscribe, List.mem_append, List.mem_singleton, h.mem_members c, History.isSubscribed, Bool.or_eq_true,
      decide_eq_true_iff, or_comm, eq_comm]
  · exact List.nodup_append.2 ⟨h.nodup_members, List.nodup_singleton _, fun a ha b hb hab =>
      hnew (List.mem_singleton.1 hb ▸ hab ▸ ha)⟩
  · simp only [hlength]
    rcases List.mem_append.1 hc with hc | hc
    · exact Nat.lt_succ_of_lt (h.members_lt c hc)
    · exact List.mem_singleton.1 hc ▸ Nat.lt_succ_self _
  · simp only [hlength]
    exact Nat.lt_succ_of_lt (h.rest_lt c hc)
  · rw [Hub.queue_subscribe]
    exact h.balance c

theorem Balanced.unsubscribe (h : Balanced message past ⟨hub, events, stage⟩) (c : Client) :
    Balanced message (.unsubscribe c :: past) ⟨hub.unsubscribe c, events, stage⟩ := by
  refine ⟨fun d => ?_, h.nodup_members.filter _, fun d hd => ?_, h.nodup_rest, h.rest_lt, h.balance⟩
  · rw [Hub.mem_members_unsubscribe, h.mem_members d, History.isSubscribed, Bool.and_eq_true, Bool.not_eq_true',
      decide_eq_false_iff_not, and_comm, ne_comm]
  · exact h.members_lt d ((Hub.mem_members_unsubscribe _ _ _).1 hd).1

theorem Balanced.take (h : Balanced message past ⟨hub, events, stage⟩) {m : μ} (hm : (hub.take c).1 = some m) :
    Balanced message (.take c m :: past) ⟨(hub.take c).2, events, stage⟩ := by
  obtain ⟨hfront, hother, hmembers, hlength⟩ := Hub.of_take hm
  refine ⟨fun d => ?_, ?_, fun d hd => ?_, h.nodup_rest, fun d hd => ?_, fun d => ?_⟩
  · simp only [hmembers]
    exact h.mem_members d
  · simp only [hmembers]
    exact h.nodup_members
  · simp only [hmembers, hlength] at hd ⊢
    exact h.members_lt d hd
  · simp only [hlength]
    exact h.rest_lt d hd
  · have hbalance := h.balance d
    simp only [History.taken, History.due]
    by_cases hd : c = d
    · subst hd
      rw [if_pos rfl, ← hbalance, hfront]
      simp
    · rw [if_neg hd, hother d (Ne.symm hd), List.append_nil]
      exact hbalance

theorem Balanced.look (h : Balanced message past ⟨hub, events, .fetched e⟩) {seen : List Client}
    (hperm : seen.Perm hub.members) :
    Balanced message (.look e seen :: past) ⟨hub, events, .putting e seen seen⟩ := by
  refine ⟨h.mem_members, h.nodup_members, h.members_lt, hperm.nodup_iff.2 h.nodup_members,
    fun c hc => h.members_lt c (hperm.mem_iff.1 hc), fun c => ?_⟩
  have hbalance := h.balance c
  have hseen : c ∈ seen ↔ past.isSubscribed c = true := hperm.mem_iff.trans (h.mem_members c)
  simp only [Stage.pending, List.append_nil] at hbalance
  simp only [History.taken, History.due, Stage.pending, ← hbalance, hseen]

/-- A put makes a message that was pending for a client wait for it. -/
theorem Balanced.put {seen rest : List Client} (h : Balanced message past ⟨hub, events, .putting e seen (c :: rest)⟩) :
    Balanced message (.put e c :: past) ⟨hub.deliver (message e) c, events, .putting e seen rest⟩ := by
  have hlength := Hub.length_queues_deliver hub (message e) c
  obtain ⟨hc, hrest⟩ := List.nodup_cons.1 h.nodup_rest
  refine ⟨h.mem_members, h.nodup_members, fun d hd => ?_, hrest, fun d hd => ?_, fun d => ?_⟩
  · simp only [hlength]
    exact h.members_lt d hd
  · simp only [hlength]
    exact h.rest_lt d (List.mem_cons_of_mem c hd)
  · have hbalance := h.balance d
    simp only [History.taken, History.due, Stage.pending, ← hbalance]
    by_cases hd : d = c
    · subst hd
      rw [Hub.queue_deliver_self hub _ (h.rest_lt d List.mem_cons_self), if_neg hc, if_pos List.mem_cons_self]
      simp
    · rw [Hub.queue_deliver_of_ne hub _ hd]
      simp [hd]

theorem Balanced.step {s s' : Relay ε μ} {a : Action ε μ} (h : Balanced message past s)
    (hstep : Step message s a s') : Balanced message (a :: past) s' := by
  cases hstep with
  | change e => exact ⟨h.mem_members, h.nodup_members, h.members_lt, h.nodup_rest, h.rest_lt, h.balance⟩
  | subscribe => exact h.subscribe
  | unsubscribe c => exact h.unsubscribe c
  | take hm => exact h.take hm
  | fetch => exact ⟨h.mem_members, h.nodup_members, h.members_lt, h.nodup_rest, h.rest_lt, h.balance⟩
  | look hperm => exact h.look hperm
  | put => exact h.put
  | finish => exact ⟨h.mem_members, h.nodup_members, h.members_lt, h.nodup_rest, h.rest_lt, h.balance⟩

/-! ## Events -/

/-- The events that were posted have been fetched or wait, each that was fetched has one broadcast, or is about
to have one, and each broadcast tells how many clients it saw: those that were subscribed then. -/
structure Accounted (past : History ε μ) (s : Relay ε μ) : Prop where
  posted : past.posted = past.fetched ++ s.events
  fetched : past.fetched = past.broadcasts.map Prod.fst ++ s.stage.inHand
  returned : (past.broadcasts.map fun b => (b.1, b.2.length)) = past.returned ++ s.stage.unreturned
  seen : ∀ e seen (before : History ε μ), .look e seen :: before <:+ past →
    seen.Nodup ∧ ∀ c, c ∈ seen ↔ before.isSubscribed c = true

theorem accounted_start : Accounted ([] : History ε μ) ⟨Hub.empty, [], .idle⟩ where
  posted := rfl
  fetched := rfl
  returned := rfl
  seen _ _ _ h := absurd (List.suffix_nil.1 h) (List.cons_ne_nil _ _)

theorem Accounted.seen_cons {s : Relay ε μ} (h : Accounted past s) {a : Action ε μ}
    (ha : ∀ e seen, a ≠ .look e seen) (e : ε) (seen : List Client) (before : History ε μ)
    (hbefore : .look e seen :: before <:+ a :: past) :
    seen.Nodup ∧ ∀ c, c ∈ seen ↔ before.isSubscribed c = true := by
  rcases List.suffix_cons_iff.1 hbefore with heq | hsuffix
  · exact absurd (List.cons.inj heq).1.symm (ha e seen)
  · exact h.seen e seen before hsuffix

theorem Accounted.step {s s' : Relay ε μ} {a : Action ε μ} (h : Accounted past s)
    (hbalanced : Balanced message past s) (hstep : Step message s a s') : Accounted (a :: past) s' := by
  cases hstep with
  | change e =>
    refine ⟨?_, h.fetched, h.returned, h.seen_cons nofun⟩
    simp only [History.posted, History.fetched, h.posted, List.append_assoc]
  | subscribe => exact ⟨h.posted, h.fetched, h.returned, h.seen_cons nofun⟩
  | unsubscribe => exact ⟨h.posted, h.fetched, h.returned, h.seen_cons nofun⟩
  | take => exact ⟨h.posted, h.fetched, h.returned, h.seen_cons nofun⟩
  | @fetch hub e events =>
    refine ⟨?_, ?_, h.returned, h.seen_cons nofun⟩
    · simp only [History.posted, History.fetched, h.posted, List.append_assoc]
      rfl
    · have hfetched := h.fetched
      simp only [Stage.inHand, List.append_nil] at hfetched
      simp only [History.fetched, History.broadcasts, Stage.inHand, hfetched]
  | @look hub events e seen hperm =>
    refine ⟨h.posted, ?_, ?_, fun e' seen' before hbefore => ?_⟩
    · have hfetched := h.fetched
      simp only [Stage.inHand] at hfetched
      simp [History.fetched, History.broadcasts, Stage.inHand, hfetched]
    · have hreturned := h.returned
      simp only [Stage.unreturned, List.append_nil] at hreturned
      simp [History.broadcasts, History.returned, Stage.unreturned, hreturned]
    · rcases List.suffix_cons_iff.1 hbefore with heq | hsuffix
      · cases heq
        exact ⟨hperm.nodup_iff.2 hbalanced.nodup_members, fun c => hperm.mem_iff.trans (hbalanced.mem_members c)⟩
      · exact h.seen e' seen' before hsuffix
  | put => exact ⟨h.posted, h.fetched, h.returned, h.seen_cons nofun⟩
  | @finish hub events e seen =>
    refine ⟨h.posted, h.fetched, ?_, h.seen_cons nofun⟩
    have hreturned := h.returned
    simp only [Stage.unreturned] at hreturned
    simp only [History.broadcasts, History.returned, Stage.unreturned, hreturned, List.append_nil]

theorem Run.balanced {s : Relay ε μ} (h : Run message past s) : Balanced message past s := by
  induction h with
  | start => exact balanced_start
  | next _ hstep ih => exact ih.step hstep

theorem Run.accounted {s : Relay ε μ} (h : Run message past s) : Accounted past s := by
  induction h with
  | start => exact accounted_start
  | next hrun hstep ih => exact ih.step hrun.balanced hstep

/-- In every run each client is exactly served: once the message of the current broadcast is on all queues, what a
client has taken and what waits for it are the messages of the broadcasts that looked while it was subscribed, in
order. A broadcast tells how many clients it saw, and it saw all that were subscribed. The events that were posted
are those that were fetched, each with a broadcast of its own, and those that wait. -/
theorem Run.delivery {past : History ε μ} {s : Relay ε μ} (h : Run message past s) :
    (s.stage.rest = [] → ∀ c, past.taken c ++ s.hub.queue c = past.due message c) ∧
    (past.broadcasts.map fun b => (b.1, b.2.length)) = past.returned ++ s.stage.unreturned ∧
    (∀ e seen (before : History ε μ), .look e seen :: before <:+ past →
      seen.Nodup ∧ ∀ c, c ∈ seen ↔ before.isSubscribed c = true) ∧
    past.posted = past.fetched ++ s.events ∧
    past.fetched = past.broadcasts.map Prod.fst ++ s.stage.inHand := by
  refine ⟨fun hrest c => ?_, h.accounted.returned, h.accounted.seen, h.accounted.posted, h.accounted.fetched⟩
  have hbalance := h.balanced.balance c
  rw [Stage.pending_of_rest_nil hrest, List.append_nil] at hbalance
  exact hbalance

/-- Two clients come and a file changes. One of them leaves between the look and the puts, another one comes, and
meanwhile a second file changes. -/
def crossing : History Nat Nat :=
  [.finish 1 2, .put 1 0, .take 1 1, .subscribe 2, .put 1 1, .unsubscribe 0, .look 1 [1, 0], .change 2, .fetch 1,
    .change 1, .subscribe 1, .subscribe 0]

theorem run_crossing : Run id crossing ⟨⟨[[1], [], []], [1, 2]⟩, [2], .idle⟩ := by
  have hcome : @Run Nat Nat id [.subscribe 1, .subscribe 0] ⟨⟨[[], []], [0, 1]⟩, [], .idle⟩ :=
    (Run.start.next .subscribe).next .subscribe
  have hlook := (((hcome.next (.change 1)).next .fetch).next (.change 2)).next (.look (List.Perm.swap 0 1 []))
  have hleave := ((hlook.next (.unsubscribe 0)).next .put).next .subscribe
  exact ((hleave.next (.take rfl)).next .put).next .finish

/-- The client that left still gets the message, and the one that came does not. -/
theorem delivery_crossing :
    crossing.due id 0 = [1] ∧ crossing.taken 0 = [] ∧ crossing.due id 1 = [1] ∧ crossing.taken 1 = [1] ∧
      crossing.due id 2 = [] ∧ crossing.returned = [(1, 2)] ∧ crossing.posted = [1, 2] ∧
      ∀ c, crossing.taken c ++ Hub.queue ⟨[[1], [], []], [1, 2]⟩ c = crossing.due id c :=
  ⟨rfl, rfl, rfl, rfl, rfl, rfl, rfl, run_crossing.delivery.1 rfl⟩

/-! ## One pump at work alone -/

theorem Run.deliverAll {seen rest : List Client} (h : Run message past ⟨hub, events, .putting e seen rest⟩) :
    ∃ later, Run message (later ++ past)
      ⟨rest.foldl (fun hub c => hub.deliver (message e) c) hub, events, .putting e seen []⟩ := by
  induction rest generalizing past hub with
  | nil => exact ⟨[], h⟩
  | cons c rest ih =>
    obtain ⟨later, hlater⟩ := ih (h.next .put)
    exact ⟨later ++ [.put e c], by rw [List.append_assoc]; exact hlater⟩

theorem Run.broadcast (h : Run message past ⟨hub, events, .fetched e⟩) :
    ∃ later, Run message (.finish e (hub.broadcast (message e)).1 :: later ++ past)
      ⟨(hub.broadcast (message e)).2, events, .idle⟩ := by
  obtain ⟨later, hlater⟩ := (h.next (.look (.refl _))).deliverAll
  refine ⟨later ++ [.look e hub.members], ?_⟩
  have hfinish := hlater.next .finish
  rw [List.cons_append, List.append_assoc]
  exact hfinish

/-- A pump that works off all events without a pause is one of the runs. -/
theorem Run.pump {past : History FileChange Json.Value} {hub : Hub Json.Value} {events : List FileChange}
    (h : Run (fun _ => fullReload) past ⟨hub, events, .idle⟩) :
    ∃ later, Run (fun _ => fullReload) (later ++ past) ⟨Serve.pump events hub, [], .idle⟩ := by
  induction events generalizing past hub with
  | nil => exact ⟨[], h⟩
  | cons e events ih =>
    obtain ⟨first, hfirst⟩ := (h.next .fetch).broadcast
    obtain ⟨later, hlater⟩ := ih hfirst
    refine ⟨later ++ (.finish e (hub.broadcast fullReload).1 :: first ++ [.fetch e]), ?_⟩
    rw [List.append_assoc, List.append_assoc]
    exact hlater

end Relay
end Sitewright.Serve
