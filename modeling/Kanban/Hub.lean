import Kanban.Client
import Kanban.Http.Stream

/-!
# Kanban.Hub — everything that runs together

A hub holds servers, clients and streams and the jobs that run between requests: readers that
wait for one event, listeners that feed a client, forwarders that feed a stream. Jobs run when
the request at hand is done, in the order in which they were started or woken, whichever it was,
until all wait.

Servers that come up one after the other share the folder of the snapshots, the clock and the
source of positions; clients stay with the server that they were made for.
-/

namespace Kanban

/-- The part of a server that is its own. -/
structure Site where
  repository : Repository := {}
  channel : Channel := {}

/-- What a job does. -/
inductive Task where
  /-- Wait for one event. -/
  | read
  /-- Apply events to a client until the subscription ends. -/
  | listen (client : Nat)
  /-- Send events to a stream until the subscription ends. -/
  | forward (stream : Nat)
  /-- Wait for the outcome of a client's move. -/
  | move (client move : Nat)

/-- A job, at a subscription of a site unless it awaits a move. -/
structure Job where
  task : Task
  site : Nat := 0
  subscription : Nat := 0
  /-- What became of it, once it is done. -/
  result : Option (Except Failure Value) := none

/-- A stream to a remote client. -/
structure Stream where
  site : Nat
  subscription : Option Nat
  opened : Bool
  /-- What was sent and not yet collected. -/
  outbox : List Http.Stream.Message := []

/-- Everything that runs together. -/
structure Hub where
  clock : Float
  service : Service := {}
  allocator : Allocator := {}
  folder : Option Folder := none
  /-- The time that snapshots are marked with. -/
  stamp : Float := 0.0
  /-- The servers so far; the last one is in use. -/
  sites : List Site := [{}]
  clients : List (Nat × Client) := []
  streams : List Stream := []
  jobs : List Job := []
  /-- The jobs that were started or woken and have not run since, in that order; of each is told
  whether it was woken. -/
  ready : List (Nat × Bool) := []

/-- An operation on a hub. -/
abbrev Hub.Op (α : Type) := ExceptT Failure (StateM Hub) α

namespace Hub

/-- The number of the server in use. -/
def current (h : Hub) : Nat := h.sites.length - 1

/-- A server of the hub, before it has woken anyone. -/
def server (site : Nat) (h : Hub) : Server :=
  let s := h.sites.getD site {}
  { storage := { repository := s.repository, folder := h.folder, stamp := h.stamp }
    channel := s.channel.quiet, allocator := h.allocator }

/-- The hub with a server replaced. Whom the server has woken is ready behind all others. -/
def setServer (site : Nat) (s : Server) (h : Hub) : Hub :=
  { h with
    sites := h.sites.set site { repository := s.storage.repository, channel := s.channel }
    folder := s.storage.folder, allocator := s.allocator
    ready := h.ready ++ s.channel.woken.map (·, true) }

/-- Something that a server does. -/
def onServerState {α : Type} (site : Nat) (op : StateM Server α) : StateM Hub α := fun h =>
  let r := op (h.server site)
  (r.1, h.setServer site r.2)

/-- An operation of a server. -/
def onServer {α : Type} (site : Nat) (op : Server.Op α) : Op α := fun h =>
  let r := op (h.server site)
  (r.1, h.setServer site r.2)

/-- Bring up a server with nothing in memory. -/
def reopen (h : Hub) : Hub :=
  { h with sites := h.sites ++
      [{ channel := { queueSize := h.service.settings.subscriberQueue } }] }

/-- A subscription of a site. -/
def subscription? (site n : Nat) (h : Hub) : Option Subscription :=
  (h.sites[site]?).bind fun s => s.channel.subscription? n

/-- Change the channel of a site. -/
def onChannel {α : Type} (site : Nat) (f : Channel → α × Channel) : StateM Hub α :=
  onServerState site fun s =>
    let r := f s.channel
    (r.1, { s with channel := r.2 })

/-- An operation of a client's projection. -/
def onClient {α : Type} (n : Nat) (op : Projection.Op α) : Op α := fun h =>
  match h.clients[n]? with
  | none => (.error .noLoader, h)
  | some (site, c) =>
    let r := op c.projection
    (r.1, { h with clients := h.clients.set n (site, { c with projection := r.2 }) })

/-- Move a card of a client here and now; gives the number of the move. -/
def beginMove (n : Nat) (card : String) (target : Key) (d : Directive) : Op Nat := fun h =>
  match h.clients[n]? with
  | none => (.error .noTransport, h)
  | some (site, c) =>
    let r := c.projection.begin h.clock card target d (c.allocator.getD h.allocator)
    let own := c.allocator.map fun _ => r.2.2
    let shared := if c.allocator.isNone then r.2.2 else h.allocator
    (r.1, { h with
      allocator := shared
      clients := h.clients.set n (site, { c with projection := r.2.1, allocator := own }) })

/-- What a client sends with a move. -/
def sending (c : Client) (card : String) (target : Key) (d : Directive) : Value :=
  .list [.text card, c.projection.board, target, .object d.toParams]

/-- Begin a move and send it. A service answers at once; a script answers what is given, or later. -/
def sendMove (n : Nat) (card : String) (target : Key) (d : Directive)
    (answer : Option (Except Failure Value)) : Op (Nat × Option (Except Failure Value)) := do
  match (← get).clients[n]? with
  | none => throw .noTransport
  | some (site, c) =>
    if c.transport = .none then throw .noTransport
    let m ← beginMove n card target d
    if c.transport = .scripted then
      modify fun h => { h with clients := h.clients.modify n fun e =>
        (e.1, { e.2 with sent := sending c card target d :: e.2.sent }) }
      return (m, answer)
    else
      let h ← get
      let r ← ExceptT.lift
        (onServer site (Client.sendTo h.service h.clock c.account c.projection.board card target d)).run
      return (m, some r)

/-- Move a card and wait for the outcome; gives the number of the move. -/
def move (n : Nat) (card : String) (target : Key) (d : Directive) (answer : Except Failure Value) :
    Op Nat := do
  let (m, r) ← sendMove n card target d (some answer)
  onClient n (Projection.settle m (r.getD answer))
  pure m

/-- Read the board of a client again. -/
def reload (n : Nat) : Op Unit := do
  match (← get).clients[n]? with
  | none => throw .noLoader
  | some (site, c) =>
    let payload ← match c.loader with
      | .none => throw .noLoader
      | .fixed payload => pure payload
      | .service => onServer site (Client.readFrom (← get).service c.account c.projection.board)
    onClient n (Projection.applyRefresh payload)

/-- Start a job; gives its number. -/
def start (j : Job) : StateM Hub Nat := fun h =>
  (h.jobs.length, { h with jobs := h.jobs ++ [j], ready := h.ready ++ [(h.jobs.length, false)] })

/-- A job is done. -/
def finishJob (n : Nat) (r : Except Failure Value) : StateM Hub Unit :=
  modify fun h => { h with jobs := h.jobs.modify n ({ · with result := some r }) }

/-- A client hears an event, and reads the board again if events were dropped. -/
def hear (client site n : Nat) (e : Value) : Op Unit := do
  discard <| onClient client (Projection.applyEvent e)
  let h ← get
  let lagged := ((h.subscription? site n).map (·.lagged)).getD false
  let loads := match (h.clients[client]?).map (·.2.loader) with
    | some .none | none => false
    | some _ => true
  if lagged && loads then
    ExceptT.lift (onChannel site fun c => ((), c.update n ({ · with lagged := false })))
    reload client

/-- Send an event to a stream. -/
def post (stream : Nat) (m : Http.Stream.Message) : StateM Hub Unit :=
  modify fun h => { h with streams := h.streams.modify stream fun s =>
    if s.opened then { s with outbox := s.outbox ++ [m] } else s }

/-- Apply buffered events to a client, at most `fuel` of them; tells of each whether it changed the
columns. -/
def pump (client site n : Nat) : Nat → Op (List (Value × Bool))
  | 0 => pure []
  | fuel + 1 => do
    match ← ExceptT.lift (onChannel site (·.take n)) with
    | some (some .null) | some none | none => pure []
    | some (some e) =>
      let changed ← onClient client (Projection.applyEvent e)
      let rest ← pump client site n fuel
      pure ((e, changed) :: rest)

/-- Run a job at a subscription until it has to wait or is done. Each turn takes something from the
buffer, so `fuel` need not exceed its length by more than one. -/
def run (job : Nat) (j : Job) : Nat → Bool → StateM Hub Unit
  | 0, _ => pure ()
  | fuel + 1, woken => do
    match ← onChannel j.site (·.read j.subscription woken) with
    -- whoever was woken for nothing goes to the end of the line
    | .pending => onChannel j.site fun c => ((), c.wait j.subscription job)
    | .over => finishJob job (.ok .null)
    | .event e =>
      match j.task with
      | .read => finishJob job (.ok e)
      | .listen client =>
        match ← (hear client j.site j.subscription e).run with
        | .ok () => run job j fuel false
        | .error f => finishJob job (.error f)
      | .forward stream =>
        post stream (.json e)
        run job j fuel false
      | .move _ _ => pure ()

/-- Run a job that was started or woken. -/
def runJob (job : Nat) (woken : Bool) : StateM Hub Unit := do
  let h ← get
  match h.jobs[job]? with
  | none => pure ()
  | some j =>
    if j.result.isSome then pure ()
    else match j.task with
      | .move _ _ => pure ()
      | _ =>
        let length := ((h.subscription? j.site j.subscription).map (·.buffer.length)).getD 0
        run job j (length + 2) woken

/-- Let the jobs run that are ready, one after the other. -/
def settle : StateM Hub Unit := do
  -- what becomes ready while these run is left for the next time
  let ready := (← get).ready
  modify ({ · with ready := [] })
  ready.forM fun r => runJob r.1 r.2

/-- Open a stream; gives its number. -/
def openStream (headers : List (String × String)) (t : Http.Target) : StateM Hub Nat := do
  let h ← get
  let site := h.current
  -- a stream that is turned away is recorded all the same, with what it was told
  let (messages, n) ← onServerState site (Http.Stream.opened h.service headers t)
  let number := h.streams.length
  modify fun h => { h with streams := h.streams ++
    [{ site, subscription := n, opened := n.isSome, outbox := messages }] }
  match n with
  | none => pure ()
  | some n =>
    let job : Job := { task := .forward number, site, subscription := n }
    discard <| start job
  pure number

/-- End a stream: its subscription is closed and nothing is forwarded any more. -/
def endStream (stream : Nat) : StateM Hub Unit := do
  match (← get).streams[stream]? with
  | none => pure ()
  | some s =>
    modify fun h => { h with streams := h.streams.modify stream ({ · with opened := false }) }
    match s.subscription with
    | none => pure ()
    | some n => onChannel s.site fun c => ((), c.close n)

/-- A stream's client sends a text. -/
def receive (stream : Nat) (text : String) : StateM Hub Unit := do
  if (((← get).streams[stream]?).map (·.opened)).getD false then
    match Http.Stream.reply text with
    | .ok none => pure ()
    | .ok (some m) => post stream m
    | .error _ => endStream stream

/-- Collect what was sent on a stream. -/
def collect (stream : Nat) : StateM Hub (List Http.Stream.Message) := fun h =>
  (((h.streams[stream]?).map (·.outbox)).getD [],
    { h with streams := h.streams.modify stream ({ · with outbox := [] }) })

end Hub

end Kanban
