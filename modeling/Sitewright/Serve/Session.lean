import Sitewright.Serve.Server
import Sitewright.Watch
/-!
# Sessions of the development server

Between requests the server keeps its hub, and the event streams that browsers have open; other clients
listen to the hub directly. Streams and clients are told apart by names that are given to them. A watcher's
changes wait in a queue until they are pumped, which makes every page reload once for each of them.

Main statements: pumping changes nobody's subscription (`members_pump`), and a stream that has been closed
is open no more (`readStream?_closeStream?`).
-/
set_option autoImplicit false

namespace Sitewright.Serve

/-- What the server keeps between requests. -/
structure Session where
  hub : Hub Json.Value
  /-- The open streams by name. -/
  streams : Keyed Stream
  /-- The clients that listen directly, by name, those that have left included. -/
  listeners : Keyed Client
deriving Repr

/-- The watcher of a site. What builds write is not watched. -/
def watcher (site : Site) : Watcher :=
  ⟨site.root, site.reloadExtensions, [], [site.outRoot, site.tmpRoot], []⟩

/-- Tells every client to reload once for each change, in order. -/
def pump (changes : List FileChange) (hub : Hub Json.Value) : Hub Json.Value :=
  changes.foldl (fun hub _ => (hub.broadcast fullReload).2) hub

namespace Session

def start : Session := ⟨Hub.empty, [], []⟩

/-! ## Requests -/

/-- Answers a request. A request for the stream of reloads subscribes a client even where nothing is read
of the answer. -/
def request (s : Session) (site : Site) (tree : Variables) (method : Method) (target : Text) :
    Reading (Reply × Session) := do
  let reply ← respond site tree method target
  return (reply, if reply = .stream then { s with hub := s.hub.subscribe.2 } else s)

/-! ## Streams -/

def openStream (s : Session) (name : Text) : Session :=
  let (client, hub) := s.hub.subscribe
  { s with hub := hub, streams := Keyed.put name ⟨client, false⟩ s.streams }

/-- The next piece of a stream; none where no stream of the name is open. -/
def readStream? (s : Session) (name : Text) : Option (Chunk × Session) :=
  (Keyed.get? name s.streams).map fun stream =>
    let (chunk, stream, hub) := stream.next s.hub
    (chunk, { s with hub := hub, streams := Keyed.put name stream s.streams })

/-- Closes a stream; none where no stream of the name is open. -/
def closeStream? (s : Session) (name : Text) : Option Session :=
  (Keyed.get? name s.streams).map fun stream =>
    { s with hub := s.hub.unsubscribe stream.client, streams := Keyed.remove name s.streams }

/-! ## Clients that listen directly -/

def subscribe (s : Session) (name : Text) : Session :=
  let (client, hub) := s.hub.subscribe
  { s with hub := hub, listeners := Keyed.put name client s.listeners }

/-- Takes a client off the subscriptions; its queue stays. -/
def unsubscribe? (s : Session) (name : Text) : Option Session :=
  (Keyed.get? name s.listeners).map fun c => { s with hub := s.hub.unsubscribe c }

/-- The messages that wait for a client, which takes them. -/
def receive? (s : Session) (name : Text) : Option (List Json.Value × Session) :=
  (Keyed.get? name s.listeners).map fun c =>
    let (messages, hub) := s.hub.takeAll c
    (messages, { s with hub := hub })

/-- Sends a message to all clients, and tells how many they are. -/
def broadcast (s : Session) (m : Json.Value) : Nat × Session :=
  let (n, hub) := s.hub.broadcast m
  (n, { s with hub := hub })

theorem readStream?_closeStream? {s t : Session} {name : Text} (h : s.closeStream? name = some t) :
    t.readStream? name = none := by
  obtain ⟨stream, _, rfl⟩ := Option.map_eq_some_iff.1 h
  simp [readStream?, Keyed.get?_remove_self]

end Session

theorem members_pump (changes : List FileChange) (hub : Hub Json.Value) :
    (pump changes hub).members = hub.members := by
  unfold pump
  induction changes generalizing hub with
  | nil => rfl
  | cons _ rest ih => rw [List.foldl_cons, ih, Hub.members_broadcast]

end Sitewright.Serve
