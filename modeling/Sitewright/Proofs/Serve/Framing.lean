import Sitewright.Proofs.Json.Printable
import Sitewright.Proofs.Serve.Delivery
import Sitewright.Proofs.Text.Splitting
/-!
# What a browser reads from a stream

A stream sends comments, and each message as a document on one line. A browser cuts what it gets into events at blank
lines, drops the comments and takes the prefix off the rest. It reads the messages that the client of the stream was
given, in order, whatever else the hub serves meanwhile.

* `events`, `received`: what a browser makes of a text.
* `Sendable`: the messages that documents without doubles stand for.
* `Streaming`: what one stream has sent, and what its client was given.

Main statements: `received_text`, `Streaming.balance`, `stream_framing`.
-/
set_option autoImplicit false

namespace Sitewright.Serve

open Json (Value Style)

variable {chunks sent : List Chunk} {chunk : Chunk} {given : List Value} {m : Value} {s : Stream} {hub : Hub Value}

/-! ## The receiving side -/

/-- The lines of a text, whatever their ends are. What stands behind the last end is no line yet. -/
def lines (text : Text) : List Text := (Text.splitOn '\n' (Newline.normalize text)).dropLast

/-- The blocks that are ended by blank lines; `block` holds the lines since the last one. -/
def blocks (block : List Text) : List Text → List (List Text)
  | [] => []
  | [] :: rest => block :: blocks [] rest
  | line :: rest => blocks (block ++ [line]) rest

/-- The events of a text: the blocks of its lines. -/
def events (text : Text) : List (List Text) := blocks [] (lines text)

/-- What an event says: its lines but for comments, without their prefix. A block of comments is no event. -/
def payload? (event : List Text) : Option Text :=
  match event.filter fun line => line.head? != some ':' with
  | [] => none
  | kept => some (Text.join ['\n'] (kept.map fun line => (Text.after? "data: ".toList line).getD line))

/-- The messages of a text, each read from its event. -/
def received (text : Text) : List (Except Json.Problem Value) := ((events text).filterMap payload?).map Json.read

/-! ## The sending side -/

/-- Some document stands for the message, and no double is in it. -/
structure Sendable (m : Value) : Prop where
  document : ∃ s, Json.read s = .ok m
  noReal : m.Every Value.NotReal

theorem sendable_iff : Sendable m ↔ m.Exact ∧ m.Distinct := by
  rw [← Json.exists_read_iff Json.spaced_parts]
  exact ⟨fun h => ⟨h.document, h.noReal⟩, fun h => ⟨h.1, h.2⟩⟩

namespace Chunk

def line : Chunk → Text
  | .connected => ": connected".toList
  | .keepalive => ": keepalive".toList
  | .message m => "data: ".toList ++ Style.spaced.write m

def message? : Chunk → Option Value
  | .message m => some m
  | _ => none

/-- A message, or a sign of life where there is none. -/
def ofItem : Option Value → Chunk
  | some m => .message m
  | none => .keepalive

theorem text_eq (c : Chunk) : c.text = c.line ++ ['\n', '\n'] := by
  cases c <;> rfl

theorem line_ne_nil (c : Chunk) : c.line ≠ [] := by
  cases c <;> exact List.cons_ne_nil _ _

theorem printable_line (h : ∀ m ∈ chunk.message?, Sendable m) : ∀ c ∈ chunk.line, Printable c := by
  cases chunk with
  | connected => exact printable_of_all (by decide)
  | keepalive => exact printable_of_all (by decide)
  | message m =>
    exact List.forall_mem_append.2 ⟨printable_of_all (by decide), Json.printable_write (h m rfl).noReal⟩

theorem payload?_line (c : Chunk) : payload? [c.line] = c.message?.map Style.spaced.write := by
  cases c with
  | connected => rfl
  | keepalive => rfl
  | message m => exact congrArg some (Text.join_singleton _ _)

end Chunk

/-! ## Cutting -/

theorem splitOn_line {line : Text} (h : '\n' ∉ line) (rest : Text) :
    Text.splitOn '\n' (line ++ ['\n', '\n'] ++ rest) = line :: [] :: Text.splitOn '\n' rest := by
  have hblank : Text.splitOn '\n' ('\n' :: rest) = [] :: Text.splitOn '\n' rest := Text.splitOn_append '\n' [] rest
  rw [List.append_assoc]
  exact (Text.splitOn_append '\n' line ('\n' :: rest)).trans (by rw [Text.splitOn_of_not_mem h, hblank, List.singleton_append])

theorem lines_text (h : ∀ c ∈ chunks, ∀ m ∈ c.message?, Sendable m) :
    lines (chunks.flatMap Chunk.text) = chunks.flatMap fun c => [c.line, []] := by
  have hlines : ∀ c ∈ chunks, ∀ d ∈ c.line, d ≠ '\n' ∧ d ≠ '\r' := fun c hc d hd =>
    (Chunk.printable_line (h c hc) d hd).not_line_end
  have hreturn : '\r' ∉ chunks.flatMap Chunk.text := by
    intro hmem
    obtain ⟨c, hc, hmem⟩ := List.mem_flatMap.1 hmem
    rw [Chunk.text_eq, List.mem_append] at hmem
    rcases hmem with hmem | hmem
    · exact (hlines c hc _ hmem).2 rfl
    · exact absurd hmem (by decide)
  have hsplit : Text.splitOn '\n' (chunks.flatMap Chunk.text) = (chunks.flatMap fun c => [c.line, []]) ++ [[]] := by
    clear hreturn h
    induction chunks with
    | nil => rfl
    | cons c chunks ih =>
      obtain ⟨hc, hlater⟩ := List.forall_mem_cons.1 hlines
      rw [List.flatMap_cons, Chunk.text_eq, splitOn_line fun hmem => (hc _ hmem).1 rfl, ih hlater]
      rfl
  rw [lines, Newline.normalize_of_not_mem hreturn, hsplit, List.dropLast_concat]

theorem events_text (h : ∀ c ∈ chunks, ∀ m ∈ c.message?, Sendable m) :
    events (chunks.flatMap Chunk.text) = chunks.map fun c => [c.line] := by
  rw [events, lines_text h]
  clear h
  induction chunks with
  | nil => rfl
  | cons c chunks ih =>
    obtain ⟨first, rest, hline⟩ := List.exists_cons_of_ne_nil c.line_ne_nil
    rw [List.flatMap_cons, List.map_cons, ← ih, hline]
    rfl

/-- The messages of the pieces are what is received, each of them once and in order. -/
theorem received_text (h : ∀ c ∈ chunks, ∀ m ∈ c.message?, Sendable m) :
    received (chunks.flatMap Chunk.text) = (chunks.filterMap Chunk.message?).map .ok := by
  have hread : ∀ m ∈ chunks.filterMap Chunk.message?, Json.read (Style.spaced.write m) = .ok m := fun m hm => by
    obtain ⟨c, hc, hmessage⟩ := List.mem_filterMap.1 hm
    obtain ⟨hexact, hdistinct⟩ := sendable_iff.1 (h c hc m hmessage)
    exact Json.read_write Json.spaced_parts hexact hdistinct
  have hpayload : (chunks.map fun c => [c.line]).filterMap payload? =
      (chunks.filterMap Chunk.message?).map Style.spaced.write := by
    rw [List.filterMap_map, List.map_filterMap]
    exact List.filterMap_congr fun c _ => c.payload?_line
  rw [received, events_text h, hpayload, List.map_map]
  exact List.map_congr_left hread

/-! ## One stream among others -/

/-- What the client of one stream has been given, and what the stream has sent, the earliest first. Between two pieces
the hub may serve others, and its queue may grow. -/
inductive Streaming : List Value → List Chunk → Stream → Hub Value → Prop
  | opened (hub : Hub Value) : Streaming [] [] ⟨hub.subscribe.1, false⟩ hub.subscribe.2
  | arrive {given : List Value} {sent : List Chunk} {s : Stream} {hub hub' : Hub Value} (more : List Value)
      (h : Streaming given sent s hub) (hqueue : hub'.queue s.client = hub.queue s.client ++ more) :
      Streaming (given ++ more) sent s hub'
  | send {given : List Value} {sent : List Chunk} {s : Stream} {hub : Hub Value} (h : Streaming given sent s hub) :
      Streaming given (sent ++ [(s.next hub).1]) (s.next hub).2.1 (s.next hub).2.2

theorem Stream.next_of_nil (hbegun : s.begun = true) (hqueue : hub.queue s.client = []) :
    s.next hub = (.keepalive, s, hub) := by
  rw [next, if_pos hbegun, Hub.take, hqueue]

theorem Stream.next_of_cons {rest : List Value} (hbegun : s.begun = true) (hqueue : hub.queue s.client = m :: rest) :
    s.next hub = (.message m, s, { hub with queues := hub.queues.set s.client rest }) := by
  rw [next, if_pos hbegun, Hub.take, hqueue]

/-- A message that a piece carries is taken from the front of the queue. -/
theorem Stream.next_balance (s : Stream) (hub : Hub Value) : (s.next hub).2.1.client = s.client ∧
    (s.next hub).1.message?.toList ++ (s.next hub).2.2.queue s.client = hub.queue s.client := by
  by_cases hbegun : s.begun = true
  · cases hqueue : hub.queue s.client with
    | nil =>
      rw [next_of_nil hbegun hqueue]
      exact ⟨rfl, hqueue⟩
    | cons m rest =>
      have htake : (hub.take s.client).1 = some m := by rw [Hub.take, hqueue]
      have hrest := (Hub.of_take htake).1
      rw [Hub.take, hqueue] at hrest
      rw [next_of_cons hbegun hqueue]
      exact ⟨rfl, hrest.symm⟩
  · rw [next, if_neg hbegun]
    exact ⟨rfl, rfl⟩

/-- A broadcast puts its message once on the queue of each client that is subscribed. -/
theorem Hub.queue_broadcast {c : Client} (hnodup : hub.members.Nodup) (hc : c < hub.queues.length) (m : Value) :
    (hub.broadcast m).2.queue c = hub.queue c ++ if c ∈ hub.members then [m] else [] := by
  have hfold : ∀ (seen : List Client) (hub : Hub Value), seen.Nodup → c < hub.queues.length →
      (seen.foldl (fun hub c => hub.deliver m c) hub).queue c = hub.queue c ++ if c ∈ seen then [m] else [] := by
    intro seen
    induction seen with
    | nil => intro hub _ _; simp
    | cons first seen ih =>
      intro hub hnodup hc
      obtain ⟨hfirst, hseen⟩ := List.nodup_cons.1 hnodup
      rw [List.foldl_cons, ih (hub.deliver m first) hseen (by rwa [length_queues_deliver])]
      by_cases heq : c = first
      · subst heq
        rw [queue_deliver_self hub m hc, if_neg hfirst, if_pos List.mem_cons_self, List.append_nil]
      · rw [queue_deliver_of_ne hub m heq]
        simp [heq]
  exact hfold hub.members hub hnodup hc

namespace Streaming

/-- What a stream has sent and what waits for it are what its client was given. -/
theorem balance (h : Streaming given sent s hub) : sent.filterMap Chunk.message? ++ hub.queue s.client = given := by
  induction h with
  | opened hub =>
    show [] ++ hub.subscribe.2.queue hub.queues.length = []
    rw [Hub.queue_subscribe, Hub.queue, List.getD_eq_default _ _ (Nat.le_refl _)]
    rfl
  | arrive more _ hqueue ih => rw [hqueue, ← List.append_assoc, ih]
  | @send given sent s hub _ ih =>
    obtain ⟨hclient, hnext⟩ := s.next_balance hub
    have hlast : [(s.next hub).1].filterMap Chunk.message? = (s.next hub).1.message?.toList := by
      rw [List.filterMap_cons, List.filterMap_nil]
      cases (s.next hub).1.message? <;> rfl
    rw [hclient, List.filterMap_append, hlast, List.append_assoc, hnext, ih]

theorem broadcast (h : Streaming given sent s hub) (hnodup : hub.members.Nodup) (hclient : s.client ∈ hub.members)
    (hknown : s.client < hub.queues.length) (m : Value) : Streaming (given ++ [m]) sent s (hub.broadcast m).2 :=
  h.arrive [m] (by rw [Hub.queue_broadcast hnodup hknown, if_pos hclient])

/-- There is a stream that sends some messages and signs of life, in order. -/
theorem exists_of_items (items : List (Option Value)) : ∃ s hub,
    Streaming (items.filterMap id) (.connected :: items.map Chunk.ofItem) s hub ∧
      s.begun = true ∧ hub.queue s.client = [] ∧ s.client < hub.queues.length := by
  -- on the items from the last one: the queue is empty behind each of them
  induction items using List.reverseRecOn with
  | nil => exact ⟨⟨0, true⟩, Hub.empty.subscribe.2, (opened Hub.empty).send, rfl, rfl, Nat.one_pos⟩
  | append_singleton items item ih =>
    obtain ⟨s, hub, hrun, hbegun, hqueue, hknown⟩ := ih
    rw [List.filterMap_append, List.map_append, ← List.cons_append]
    cases item with
    | none =>
      have hsend := hrun.send
      rw [Stream.next_of_nil hbegun hqueue] at hsend
      refine ⟨s, hub, ?_, hbegun, hqueue, hknown⟩
      rw [List.filterMap_cons_none rfl, List.filterMap_nil, List.append_nil]
      exact hsend
    | some m =>
      have hgiven : (hub.deliver m s.client).queue s.client = [m] := by
        rw [Hub.queue_deliver_self hub m hknown, hqueue, List.nil_append]
      have hgrown : (hub.deliver m s.client).queue s.client = hub.queue s.client ++ [m] := by
        rw [hgiven, hqueue, List.nil_append]
      have hsend := (hrun.arrive [m] hgrown).send
      rw [Stream.next_of_cons hbegun hgiven] at hsend
      have hlength := Hub.length_queues_deliver hub m s.client
      refine ⟨s, _, hsend, hbegun, ?_, ?_⟩
      · simp [Hub.queue, hlength, hknown]
      · rwa [List.length_set, hlength]

end Streaming

/-- The event stream is a lossless framing. Whatever one stream sends, each piece of it is an event of its own, and the
messages that are received are those that were sent; these and what still waits are what its client was given, in
order. Every row of messages and signs of life is sent by some stream. -/
theorem stream_framing :
    (∀ given sent s hub, Streaming given sent s hub → (∀ m ∈ given, Sendable m) →
      events (sent.flatMap Chunk.text) = sent.map (fun c => [c.line]) ∧
      received (sent.flatMap Chunk.text) = (sent.filterMap Chunk.message?).map .ok ∧
      sent.filterMap Chunk.message? ++ hub.queue s.client = given) ∧
    ∀ items : List (Option Value), (∀ m ∈ items.filterMap id, Sendable m) → ∃ s hub,
      Streaming (items.filterMap id) (.connected :: items.map Chunk.ofItem) s hub ∧
      received ((Chunk.connected :: items.map Chunk.ofItem).flatMap Chunk.text) = (items.filterMap id).map .ok := by
  have hframing : ∀ given sent s hub, Streaming given sent s hub → (∀ m ∈ given, Sendable m) →
      events (sent.flatMap Chunk.text) = sent.map (fun c => [c.line]) ∧
      received (sent.flatMap Chunk.text) = (sent.filterMap Chunk.message?).map .ok ∧
      sent.filterMap Chunk.message? ++ hub.queue s.client = given := by
    intro given sent s hub hrun hgiven
    have hbalance := hrun.balance
    have hsent : ∀ c ∈ sent, ∀ m ∈ c.message?, Sendable m := fun c hc m hm => by
      refine hgiven m ?_
      rw [← hbalance]
      exact List.mem_append_left _ (List.mem_filterMap.2 ⟨c, hc, hm⟩)
    exact ⟨events_text hsent, received_text hsent, hbalance⟩
  refine ⟨hframing, fun items hitems => ?_⟩
  obtain ⟨s, hub, hrun, -, hqueue, -⟩ := Streaming.exists_of_items items
  obtain ⟨-, hreceived, hbalance⟩ := hframing _ _ _ _ hrun hitems
  rw [hqueue, List.append_nil] at hbalance
  exact ⟨s, hub, hrun, by rw [hreceived, hbalance]⟩

/-- A text with line ends in it, a sign of life, the message that makes pages reload, and an empty array. -/
def mixedItems : List (Option Value) :=
  [some (.string "é\n\r\n\ndata: \u2028".toList), none, some fullReload, some (.array [])]

theorem sendable_mixedItems : ∀ m ∈ mixedItems.filterMap id, Sendable m := by
  have hmessages : mixedItems.filterMap id =
      [.string "é\n\r\n\ndata: \u2028".toList, fullReload, .array []] := rfl
  rw [hmessages]
  simp only [List.forall_mem_cons, sendable_iff]
  refine ⟨⟨.string _, .string _⟩, ⟨.object ?_, .object (by decide) ?_⟩,
    ⟨.array (List.forall_mem_nil _), .array (List.forall_mem_nil _)⟩, List.forall_mem_nil _⟩
  · exact List.forall_mem_cons.2 ⟨.string _, List.forall_mem_singleton.2 (.string _)⟩
  · exact List.forall_mem_cons.2 ⟨.string _, List.forall_mem_singleton.2 (.string _)⟩

/-- The three messages come through, and the sign of life between them is an event of its own. -/
theorem stream_framing_mixedItems : ∃ s hub,
    Streaming (mixedItems.filterMap id) (.connected :: mixedItems.map Chunk.ofItem) s hub ∧
    (events ((Chunk.connected :: mixedItems.map Chunk.ofItem).flatMap Chunk.text)).length = 5 ∧
    received ((Chunk.connected :: mixedItems.map Chunk.ofItem).flatMap Chunk.text) =
      [.ok (.string "é\n\r\n\ndata: \u2028".toList), .ok fullReload, .ok (.array [])] := by
  obtain ⟨s, hub, hrun, hreceived⟩ := stream_framing.2 mixedItems sendable_mixedItems
  obtain ⟨hevents, -, -⟩ := stream_framing.1 _ _ s hub hrun sendable_mixedItems
  refine ⟨s, hub, hrun, ?_, hreceived⟩
  rw [hevents]
  rfl

end Sitewright.Serve
