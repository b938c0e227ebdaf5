import Kanban.Client
import Kanban.Proofs.Projection.Agreement

/-!
# Kanban.Proofs.Fleet.System — clients that move cards

Several clients show one board, each with its own subscription. They start moves at any time, also
of cards that are on their way already; the server carries out requests in any order; requests and
answers get lost; outcomes and events reach a client in any order.

An answer may come late: its move was replaced by a later one, and the client has heard all that was
told of the card. The later move then goes back to where the first one was committed, although others
may have moved the card since. `strayed` follows the places that clients are told in this way.

* `Act`, `step`, `run` — the server, the clients, and what is in flight.
* `Quiet` — nothing is in flight.
* `isLate`, `stray`, `strayed` — late answers and the places they tell.
-/

namespace Kanban

namespace Projection

/-- Whether a move waits for its outcome and was replaced by one that is live. -/
def hasHeir (n : Nat) (p : Projection) : Bool :=
  (Entries.get? n p.moves).any fun m => m.state = .optimistic && (p.heir? m).isSome

/-- The outcome of a move is learnt. -/
def learn (n : Nat) (outcome : Except Reason (Key × Float)) (p : Projection) : Projection :=
  match outcome with
  | .ok (stage, x) => p.confirm n (some stage) (some (.real x))
  | .error e => p.rollback n (some e)

end Projection

open Projection (Spot)

namespace Fleet

/-! ## The system -/

/-- A client, its source of positions and the number of its subscription. -/
structure Peer where
  view : Projection
  source : Allocator := {}
  number : Nat

/-- A move of a client that a request or an answer is about. -/
structure Errand where
  peer : Nat
  move : Nat
  card : String

/-- A request in flight. -/
structure Request extends Errand where
  target : String
  directive : Directive

/-- An answer in flight: where the card was committed, or what went wrong. -/
structure Answer extends Errand where
  outcome : Except Reason (Key × Float)

/-- A server, the clients of a board, and what is in flight between them. -/
structure World where
  server : Server
  peers : List Peer := []
  requests : List Request := []
  answers : List Answer := []

/-- What happens next. -/
inductive Act where
  /-- A client starts a move. -/
  | begin (i : Nat) (now : Float) (card target : String) (d : Directive)
  /-- The server processes a request. -/
  | serve (j : Nat) (now : Float)
  /-- A request gets lost. -/
  | loseRequest (j : Nat) (e : Reason)
  /-- An answer gets lost. -/
  | loseAnswer (j : Nat) (e : Reason)
  /-- A client learns the outcome of a move. -/
  | receive (j : Nat)
  /-- A client applies the next event. -/
  | hear (i : Nat)

/-- What a client is answered about its move. -/
def outcome : Except Refusal Card → Except Reason (Key × Float)
  | .ok c => .ok (c.stage, c.position)
  | .error r => .error ⟨.refused r.error, rfl⟩

variable (account : String) (board : Key)

/-- What the server makes of a request. -/
def process (now : Float) (r : Request) (s : Server) : Except Refusal Card × Server :=
  Transition.run now true account r.card (.text r.target) r.directive (some board) s

/-- The world after an act. -/
def step (w : World) : Act → World
  | .begin i now card target d =>
    match w.peers[i]? with
    | none => w
    | some p =>
      match p.view.begin now card (.text target) d p.source with
      | (.ok n, view, source) =>
        { w with
          peers := w.peers.set i { p with view, source }
          requests := w.requests ++ [{ peer := i, move := n, card, target, directive := d }] }
      -- A move of a card that the view does not show is never sent.
      | (.error _, view, source) => { w with peers := w.peers.set i { p with view, source } }
  | .serve j now =>
    match w.requests[j]? with
    | none => w
    | some r =>
      { w with
        server := (process account board now r w.server).2
        requests := w.requests.eraseIdx j
        answers := w.answers ++
          [{ r with outcome := outcome (process account board now r w.server).1 }] }
  | .loseRequest j e =>
    match w.requests[j]? with
    | none => w
    | some r =>
      { w with
        requests := w.requests.eraseIdx j
        answers := w.answers ++ [{ r with outcome := .error e }] }
  | .loseAnswer j e =>
    match w.answers[j]? with
    | none => w
    -- The server has moved the card all the same; only the client is not told.
    | some a => { w with answers := w.answers.set j { a with outcome := .error e } }
  | .receive j =>
    match w.answers[j]? with
    | none => w
    | some a =>
      match w.peers[a.peer]? with
      | none => { w with answers := w.answers.eraseIdx j }
      | some p =>
        { w with
          peers := w.peers.set a.peer { p with view := p.view.learn a.move a.outcome }
          answers := w.answers.eraseIdx j }
  | .hear i =>
    match w.peers[i]? with
    | none => w
    | some p =>
      match w.server.channel.read p.number false with
      | (.event e, channel) =>
        { w with
          server := { w.server with channel }
          peers := w.peers.set i { p with view := (Projection.applyEvent e p.view).2 } }
      | (_, channel) => { w with server := { w.server with channel } }

/-- One more client subscribes to the board and reads it. -/
def join (v : Service) (w : World) : World :=
  let (number, channel) := w.server.channel.subscribe (Channel.keyOf account board)
  match Client.readFrom v account board { w.server with channel } with
  | (.ok payload, server) =>
    { w with
      server
      peers := w.peers ++ [{ view := (Projection.applyRefresh payload { board }).2, number }] }
  | (.error _, server) => { w with server }

/-- So many clients that have read the board, and nothing in flight. -/
def start (v : Service) (s : Server) : Nat → World
  | 0 => { server := s }
  | k + 1 => join account board v (start v s k)

/-- The world after some acts of so many clients. -/
def run (v : Service) (s : Server) (k : Nat) (acts : List Act) : World :=
  acts.foldl (step account board) (start account board v s k)

/-- Whether nothing is in flight: no requests, no answers and no events. -/
def Quiet (w : World) : Prop :=
  w.requests = [] ∧ w.answers = [] ∧
    ∀ p ∈ w.peers, (w.server.channel.subscription? p.number).any (·.buffer.isEmpty)

instance (w : World) : Decidable (Quiet w) := inferInstanceAs (Decidable (_ ∧ _ ∧ _))

/-! ## Stray places -/

/-- Whether something buffered is an event about a card. -/
def isAbout (card : String) : Buffered → Bool
  | some (.object es) => Entries.get? "card_id" es = some (.text card)
  | _ => false

/-- Whether an event about a card is on its way to a client. -/
def awaits (card : String) (p : Peer) (s : Server) : Bool :=
  (s.channel.subscription? p.number).any (·.buffer.any (isAbout card))

/-- Whether an answer comes late: a live move has replaced the one it is about, and the client has
heard all that was told of the card. -/
def isLate (a : Answer) (w : World) : Bool :=
  w.peers[a.peer]?.any fun p => p.view.hasHeir a.move && !awaits a.card p w.server

/-- The place that a client has been told of a card when it learns an answer, late or not. -/
def Answer.astray (a : Answer) (late : Bool) (card : String) (z : Option Spot) : Option Spot :=
  match a.outcome with
  | .ok (stage, x) => if a.card = card ∧ late then some (stage, .real x) else z
  | .error _ => z

/-- The place that a late answer has told a client of a card, after an act. It holds until the
server moves the card again. -/
def stray (i : Nat) (card : String) (w : World) (z : Option Spot) : Act → Option Spot
  | .serve j now =>
    match w.requests[j]? with
    | none => z
    | some r =>
      match (process account board now r w.server).1 with
      | .ok c => if c.id = card then none else z
      | .error _ => z
  | .receive j =>
    match w.answers[j]? with
    | none => z
    | some a => if a.peer = i then a.astray (isLate a w) card z else z
  | _ => z

/-- A world and a stray place in it, after an act. -/
def watch (i : Nat) (card : String) (w : World × Option Spot) (a : Act) : World × Option Spot :=
  (step account board w.1 a, stray account board i card w.1 w.2 a)

/-- The stray place of a card at a client after some acts. -/
def strayed (v : Service) (s : Server) (k : Nat) (i : Nat) (card : String) (acts : List Act) :
    Option Spot :=
  (acts.foldl (watch account board i card) (start account board v s k, none)).2

/-- The requests and answers in flight, as what they are about. -/
def World.errands (w : World) : List Errand :=
  w.requests.map (·.toErrand) ++ w.answers.map (·.toErrand)

end Fleet

end Kanban
