/-!
# Hubs

A hub hands messages to the clients that are subscribed. Each client has a queue of its own, which
outlives its subscription. A broadcast looks at the subscriptions once, and then puts the message on
the queue of each client that it saw.

Main statements: a delivery appends to one queue (`queue_deliver_self`, `queue_deliver_of_ne`), and a
client that has never subscribed or has left counts no more (`unsubscribe_unsubscribe`).
-/
set_option autoImplicit false

namespace Sitewright.Serve

/-- A client of a hub, by the number of clients before it. -/
abbrev Client := Nat

/-- The queues of all clients so far, and the clients that are subscribed. -/
structure Hub (μ : Type) where
  queues : List (List μ)
  members : List Client
deriving Repr

namespace Hub

variable {μ : Type}

def empty : Hub μ := ⟨[], []⟩

def queue (hub : Hub μ) (c : Client) : List μ := hub.queues.getD c []

def subscribe (hub : Hub μ) : Client × Hub μ :=
  let c := hub.queues.length
  (c, ⟨hub.queues ++ [[]], hub.members ++ [c]⟩)

/-- Takes a client off the subscriptions; nothing happens where it is not subscribed. -/
def unsubscribe (hub : Hub μ) (c : Client) : Hub μ :=
  { hub with members := hub.members.filter fun m => !decide (m = c) }

def clientCount (hub : Hub μ) : Nat := hub.members.length

/-- Takes the oldest message off the queue of a client. -/
def take (hub : Hub μ) (c : Client) : Option μ × Hub μ :=
  match hub.queue c with
  | [] => (none, hub)
  | m :: rest => (some m, { hub with queues := hub.queues.set c rest })

def takeAll (hub : Hub μ) (c : Client) : List μ × Hub μ :=
  (hub.queue c, { hub with queues := hub.queues.set c [] })

def deliver (hub : Hub μ) (m : μ) (c : Client) : Hub μ :=
  { hub with queues := hub.queues.set c (hub.queue c ++ [m]) }

/-- Puts a message on the queue of every client that is subscribed, and tells how many they are. -/
def broadcast (hub : Hub μ) (m : μ) : Nat × Hub μ :=
  let seen := hub.members
  (seen.length, seen.foldl (fun hub c => hub.deliver m c) hub)

theorem queue_deliver_self (hub : Hub μ) (m : μ) {c : Client} (h : c < hub.queues.length) :
    (hub.deliver m c).queue c = hub.queue c ++ [m] := by
  simp [deliver, queue, h]

theorem queue_deliver_of_ne (hub : Hub μ) (m : μ) {c d : Client} (h : d ≠ c) :
    (hub.deliver m c).queue d = hub.queue d := by
  simp [deliver, queue, h.symm]

theorem members_deliver (hub : Hub μ) (m : μ) (c : Client) :
    (hub.deliver m c).members = hub.members := rfl

theorem members_broadcast (hub : Hub μ) (m : μ) : (hub.broadcast m).2.members = hub.members := by
  have folded : ∀ (seen : List Client) (hub : Hub μ),
      (seen.foldl (fun hub c => hub.deliver m c) hub).members = hub.members := by
    intro seen
    induction seen with
    | nil => intro hub; rfl
    | cons c rest ih => intro hub; rw [List.foldl_cons, ih, members_deliver]
  exact folded hub.members hub

theorem mem_members_unsubscribe (hub : Hub μ) (c d : Client) :
    d ∈ (hub.unsubscribe c).members ↔ d ∈ hub.members ∧ d ≠ c := by
  simp [unsubscribe]

end Hub
end Sitewright.Serve
