import Kanban.Entries
import Kanban.Value.Coerce

/-!
# Kanban.Channel — fan-out of board events

A channel delivers the events published under a key to the open subscriptions of that key. A
subscription buffers events until they are read; when the buffer is full the oldest event is
dropped and the subscription is marked as lagged. There is no replay: whoever was not
subscribed has missed the event.

Readers that find nothing wait in line. Whatever enters the buffer wakes the first of them,
who may still find the buffer emptied by someone else and then goes to the end of the line.
Closing puts an end mark into an empty buffer; buffered events stay readable.

* `buffer_accept` — what a delivery does to the buffer.
-/

namespace Kanban

/-- What a buffer holds: an event, or the mark of the end. -/
abbrev Buffered := Option Value

/-- One subscriber's view of the events under a key. -/
structure Subscription where
  key : Key
  /-- How many events are buffered; nothing above zero means without bound. -/
  size : Int
  buffer : List Buffered := []
  /-- Whether an event was dropped. -/
  lagged : Bool := false
  closed : Bool := false
  /-- Whether deliveries fail. -/
  broken : Bool := false
  /-- The readers that wait, in line. -/
  waiting : List Nat := []

namespace Subscription

/-- Whether the buffer is full. -/
def isFull (s : Subscription) : Bool := decide (0 < s.size) && decide (s.size ≤ s.buffer.length)

/-- Buffer an event, dropping the oldest one from a full buffer. -/
def accept (e : Value) (s : Subscription) : Subscription :=
  if s.isFull then { s with buffer := s.buffer.tail ++ [some e], lagged := true }
  else { s with buffer := s.buffer ++ [some e] }

/-- Take the oldest of what is buffered. -/
def take (s : Subscription) : Option Buffered × Subscription :=
  match s.buffer with
  | [] => (none, s)
  | b :: rest => (some b, { s with buffer := rest })

/-- Whether a read that begins now ends at once: everything was read and nothing will come. -/
def isOver (s : Subscription) : Bool := s.closed && s.buffer.isEmpty

/-- What a delivery does to the buffer. -/
theorem buffer_accept (e : Value) (s : Subscription) :
    (s.accept e).buffer = (if s.isFull then s.buffer.tail else s.buffer) ++ [some e] := by
  unfold accept
  split <;> rfl

end Subscription

/-- A channel: its subscriptions by number, and the numbers of the open ones by key. -/
structure Channel where
  queueSize : Int := 256
  subscriptions : List Subscription := []
  registry : Entries Key (List Nat) := []
  /-- The readers that were woken by what is being done, in order. -/
  woken : List Nat := []

namespace Channel

/-- The channel when nobody was woken yet. -/
def quiet (c : Channel) : Channel := { c with woken := [] }

/-- A subscription by its number. -/
def subscription? (n : Nat) (c : Channel) : Option Subscription := c.subscriptions[n]?

/-- Change a subscription. -/
def update (n : Nat) (f : Subscription → Subscription) (c : Channel) : Channel :=
  { c with subscriptions := c.subscriptions.modify n f }

/-- The numbers of the open subscriptions of a key. -/
def numbers (key : Key) (c : Channel) : List Nat := (Entries.get? key c.registry).getD []

/-- How many subscriptions a key has. -/
def count (key : Key) (c : Channel) : Nat := (c.numbers key).length

/-- Open a subscription; gives its number. -/
def subscribe (key : Key) (c : Channel) : Nat × Channel :=
  let n := c.subscriptions.length
  (n, { c with
    subscriptions := c.subscriptions ++ [{ key, size := c.queueSize }]
    registry := Entries.put key (c.numbers key ++ [n]) c.registry })

/-- Wake the first reader in line at a subscription. -/
def wake (n : Nat) (c : Channel) : Channel :=
  match (c.subscription? n).map (·.waiting) with
  | some (r :: rest) =>
    { c.update n ({ · with waiting := rest }) with woken := c.woken ++ [r] }
  | _ => c

/-- Strike a subscription off the registry; a key without subscriptions goes too. -/
def unregister (n : Nat) (key : Key) (c : Channel) : Channel :=
  let rest := (c.numbers key).erase n
  { c with registry :=
      if rest.isEmpty then Entries.erase key c.registry else Entries.put key rest c.registry }

/-- Close a subscription. A reader that waits at an empty buffer finds the end mark. -/
def close (n : Nat) (c : Channel) : Channel :=
  match c.subscription? n with
  | none => c
  | some s =>
    if s.closed then c
    else
      let c := (c.update n ({ · with closed := true })).unregister n s.key
      -- one mark for one reader: whoever waits in line behind it is not woken
      if s.buffer.isEmpty then (c.update n ({ · with buffer := [none] })).wake n else c

/-- Hand an event to a subscription; tells whether the delivery succeeded. -/
def deliver (e : Value) (n : Nat) (c : Channel) : Bool × Channel :=
  match c.subscription? n with
  | none => (true, c)
  | some s =>
    if s.broken then (false, c)
    else if s.closed then (true, c)
    else (true, (c.update n (·.accept e)).wake n)

/-- Hand an event to subscriptions one after the other; gives the numbers of those that failed. -/
def deliverAll (e : Value) : List Nat → Channel → List Nat × Channel
  | [], c => ([], c)
  | n :: rest, c =>
    let (ok, c) := c.deliver e n
    let (failed, c) := deliverAll e rest c
    (if ok then failed else n :: failed, c)

/-- Deliver an event to all subscriptions of a key and close those that fail; gives the number of
subscriptions reached. -/
def publish (key : Key) (e : Value) (c : Channel) : Nat × Channel :=
  let targets := c.numbers key
  -- all are served before any is closed
  let (failed, c) := deliverAll e targets c
  (targets.length - failed.length, failed.foldl (fun c n => c.close n) c)

/-- Take the oldest of what a subscription has buffered. -/
def take (n : Nat) (c : Channel) : Option Buffered × Channel :=
  match c.subscription? n with
  | none => (none, c)
  | some s => (s.take.1, c.update n fun _ => s.take.2)

/-- Put a reader at the end of the line of a subscription. -/
def wait (n reader : Nat) (c : Channel) : Channel :=
  c.update n fun s => { s with waiting := s.waiting ++ [reader] }

/-- What a read comes to without waiting: an event, the end, or nothing yet. -/
inductive Read where
  | event (e : Value)
  | over
  | pending

/-- Read from a subscription. A read that begins sees that everything is over; one that was woken
only looks at the buffer. -/
def read (n : Nat) (woken : Bool) (c : Channel) : Read × Channel :=
  match c.subscription? n with
  | none => (.over, c)
  | some s =>
    if !woken && s.isOver then (.over, c)
    else match c.take n with
      | (none, c) => (.pending, c)
      | (some none, c) => (.over, c)
      | (some (some .null), c) => (.over, c)
      | (some (some e), c) => (.event e, c)

/-- Read a subscription to its end, at most `fuel` events. -/
def readAll (n : Nat) : Nat → Channel → List Value × Channel
  | 0, c => ([], c)
  | fuel + 1, c =>
    match c.read n false with
    | (.event e, c) =>
      let (rest, c) := readAll n fuel c
      (e :: rest, c)
    | (_, c) => ([], c)

/-- Close a subscription and read what it still has buffered. -/
def drain (n : Nat) (c : Channel) : List Value × Channel :=
  let c := c.close n
  readAll n (((c.subscription? n).map (·.buffer.length)).getD 0 + 1) c

/-- The key under which the events of an account's board are published. -/
def keyOf (account : String) (board : Key) : Key := .text (account ++ ":" ++ board.shown)

end Channel

end Kanban
