import Kanban.Projection.Events
import Kanban.Service

/-!
# Kanban.Client — clients of a service

A client holds a projection of a board, something to send its moves with and something to read
the board with. Either may be a service in the same process, or a script that answers when it
is told to.

An answer settles a move of a client as far as it can be used: one that is no record settles nothing,
a failure that has no words settles the move and leaves its card where it is, and a success that names
a stage that cannot be a key loses a card or the place that a card is to go back to.
-/

namespace Kanban

/-- How a client sends its moves. -/
inductive Transport where
  | service
  | scripted
  | none
  deriving DecidableEq

/-- How a client reads its board. -/
inductive Loader where
  | service
  | fixed (payload : Value)
  | none

/-- A client. -/
structure Client where
  /-- The account on whose behalf the client uses a service. -/
  account : String
  transport : Transport := .none
  loader : Loader := .none
  /-- The client's own source of positions; without one it shares the server's. -/
  allocator : Option Allocator := some {}
  projection : Projection := {}
  /-- What was sent to a script, latest first. -/
  sent : List Value := []

namespace Projection

/-- A position as an answer tells it, if it tells any. -/
def markOf : Value → Option Mark
  | .null => none
  | .real x => some (.real x)
  | v => some (.raw v)

/-- A move was committed at a stage that cannot be a key. It is settled, and then its card is lost, or
the later move that is to go back there has nowhere to go back to. -/
def settleNowhere (n : Nat) (stage position : Value) : Op Unit := do
  let p ← get
  match Entries.get? n p.moves with
  | none => return
  | some m =>
    if m.state ≠ .optimistic then return
    -- committed without a place first: the move is settled before its stage is used
    let q := (p.confirm n none none).updateMove n ({ · with committed := position })
    set q
    match markOf position with
    | none => return
    | some x =>
      if m.replacedBy.isSome then
        let last := q.latest q.moves.length m
        if last.state = .optimistic ∧ last.superseded = false then
          set (q.updateMove last.id ({ · with fromStage := stage, fromMark := x, stray := true }))
          throw (.unreadable .wrongKind)
      else if !m.superseded && (q.locate m.card).isSome then
        set (q.lose m.card)
        throw (.unreadable .wrongKind)

/-- A move was committed, as an answer tells it. -/
def settleConfirmed (n : Nat) (stage position : Value) : Op Unit := do
  match stage.given? with
  | none =>
    modify (·.confirm n none (markOf position))
    checkOrder
  | some s =>
    if s.isName then
      modify (·.confirm n (some s) (markOf position))
      checkOrder
    else settleNowhere n s position

/-- A move has failed. If the failure cannot be put into words, the move is settled all the same, but
its card stays where it is. -/
def settleFailed (n : Nat) (error : Option Failure) : Op Unit := do
  match error.mapM Failure.reason with
  | .ok reason =>
    modify (·.rollback n reason)
    checkOrder
  | .error fault =>
    let p ← get
    -- the record says that the move failed before the failure is asked for its words
    set (p.giveUp n error)
    if p.isOpen n then throw (.unreadable fault)

/-- Settle a move by what became of the request. An answer that is no record settles nothing. -/
def settle (n : Nat) (answer : Except Failure Value) : Op Unit := do
  match answer with
  | .error e =>
    settleFailed n (some e)
    throw e
  | .ok v =>
    let r ← Failure.ofReading v.record
    match (r.getD "error" .null).given? with
    | some reason =>
      let details := ((r.getD "details" .null).given?).getD (.object [])
      let e : Failure := .rejected reason (r.getD "error_code" .null) details
      settleFailed n (some e)
      throw e
    | none =>
      settleConfirmed n (r.getD "committed_stage_key" .null) (r.getD "committed_position" .null)

end Projection

namespace Client

/-- The answer of a service to a move of a client. -/
def sendTo (v : Service) (now : Float) (account : String) (board : Key) (card : String)
    (target : Key) (d : Directive) : Server.Op Value := do
  match ← v.move now ⟨account, board, .text card, target, .object d.toParams⟩ with
  | .ok c => pure (Moved.toPayload c)
  | .error r => pure r.toValue

/-- The board as a service shows it to a client. -/
def readFrom (v : Service) (account : String) (board : Key) : Server.Op Value := do
  match ← v.board account board with
  | .ok l => pure l.toPayload
  | .error r => throw (.refused r.error)

end Client

end Kanban
