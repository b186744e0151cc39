import Sitewright.Json.Writer
import Sitewright.Serve.Hub
/-!
# Event streams

A stream sends the messages of its client's queue to a browser, each as one event. It begins with a
comment, and sends a comment where nothing waits, which keeps the connection alive.
-/
set_option autoImplicit false

namespace Sitewright.Serve

/-- A piece that a stream sends. -/
inductive Chunk where
  | connected
  | keepalive
  | message (m : Json.Value)
deriving Repr

/-- The text of a piece: a comment, or an event with a document on one line. -/
def Chunk.text : Chunk → Text
  | .connected => ": connected\n\n".toList
  | .keepalive => ": keepalive\n\n".toList
  | .message m => "data: ".toList ++ Json.Style.spaced.write m ++ "\n\n".toList

/-- A stream: its client, and whether it has begun. -/
structure Stream where
  client : Client
  begun : Bool
deriving DecidableEq, Repr

def Stream.next (s : Stream) (hub : Hub Json.Value) : Chunk × Stream × Hub Json.Value :=
  if s.begun then
    match hub.take s.client with
    | (some m, hub) => (.message m, s, hub)
    | (none, hub) => (.keepalive, s, hub)
  else (.connected, { s with begun := true }, hub)

def fullReload : Json.Value :=
  .object [("type".toList, .string "full-reload".toList), ("path".toList, .string ['*'])]

end Sitewright.Serve
