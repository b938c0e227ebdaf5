import Kanban.Server

/-!
# Kanban.Transition — moving a card

A card moves to a stage and a position in two steps. Planning checks that the card and the
target stage exist and chooses the position among the cards that are there; nothing is
changed but the allocator. Committing stores stage and position together, under the same
checks once more, and publishes the move. Other operations may run between the two.

A refused transition changes no records and publishes nothing.

* `plan_board` — a plan is for the board that was asked for.
-/

namespace Kanban

/-- Stable codes of what a request can come to. -/
inductive ErrorCode where
  | notFound
  | invalid
  | invalidTransition
  | transitionFailed
  | forbidden
  | validation
  deriving DecidableEq

/-- A code as written in answers. -/
def ErrorCode.name : ErrorCode → String
  | .notFound => "NOT_FOUND"
  | .invalid => "INVALID"
  | .invalidTransition => "INVALID_TRANSITION"
  | .transitionFailed => "TRANSITION_FAILED"
  | .forbidden => "FORBIDDEN"
  | .validation => "VALIDATION_ERROR"

/-- An answer that a request was not carried out. -/
structure Refusal where
  error : String
  code : ErrorCode
  details : Entries String Value := []
  deriving DecidableEq

namespace Refusal

/-- There is no such card. -/
def noCard (id : String) : Refusal where
  error := "Card " ++ id ++ " not found"
  code := .notFound
  details := [("card_id", id)]

/-- The target is not an active stage of the board. -/
def noStage (stage : Key) (available : List Key) : Refusal where
  error := "Stage '" ++ stage.shown ++ "' not found"
  code := .notFound
  details := [("stage_key", stage), ("available_stages", .list available)]

/-- The record of the card does not admit the move. -/
def invalidMove (reason : String) : Refusal where
  error := reason
  code := .invalidTransition

/-- The move failed for a reason that is not told. -/
def failedMove : Refusal where
  error := "Failed to move card"
  code := .transitionFailed

end Refusal

/-- A transition that was planned and not yet stored. -/
structure Plan where
  account : String
  card : String
  board : Key
  stage : Key
  position : Float
  deriving DecidableEq

namespace Transition

/-- The keys of the active stages of a board. -/
def available (board : Key) (r : Records) : List Key := (r.activeStages board).map (·.key)

/-- Plan the move of a card. Without a board the card's own is meant; a card of another board than
the one given does not exist. -/
def plan (now : Float) (account card : String) (target : Key) (d : Directive) (board : Option Key)
    (s : Server) : Except Refusal Plan × Server :=
  let r := s.records account
  match r.card? card with
  | none => (.error (.noCard card), s)
  | some c =>
    let b := board.getD c.board
    if c.board ≠ b then (.error (.noCard card), s)
    else
      match r.activeStage? b target with
      | none => (.error (.noStage target (available b r)), s)
      | some stage =>
        -- a card is not among its own neighbours
        let others := (r.cardsIn b stage.key).filter fun c => c.id ≠ card
        let (x, a) := s.allocator.allocate now others d
        (.ok ⟨account, card, b, stage.key, x⟩, { s with allocator := a })

/-- The event that tells subscribers of a move. -/
def event (c : Card) : Value :=
  .object [("event", "card_moved"), ("card_id", c.id), ("stage_key", c.stage),
    ("position", .real c.position)]

/-- What a failed store comes to, on the records as they are then. -/
def refusal (p : Plan) (target : Key) (e : Failure) (r : Records) : Refusal :=
  if e.isMissingRecord then
    -- the stage may have been closed since the move was planned
    if (r.activeStage? p.board p.stage).isNone then .noStage target (available p.board r)
    else .noCard p.card
  else if e.isInvalidRecord then .invalidMove e.message
  else .failedMove

/-- Store a planned move. `slip` is a failure that keeps the card from being stored. -/
def store (slip : Except Failure Unit) (p : Plan) : Server.Op Card :=
  Server.onStorage do
    ExceptT.mk (pure slip)
    Storage.place p.account p.card p.stage (.real p.position)

/-- What slips before the card is placed fails without a change. -/
theorem store_eq (slip : Except Failure Unit) (p : Plan) (s : Server) :
    store slip p s = match slip with
      | .error e => (.error e, s)
      | .ok _ =>
        let r := Storage.place p.account p.card p.stage (.real p.position) s.storage
        (r.1, { s with storage := r.2 }) := by
  cases slip <;> rfl

/-- Store a planned move and publish it; `announce` tells whether it is published. -/
def commit (announce : Bool) (target : Key) (slip : Except Failure Unit) (p : Plan) (s : Server) :
    Except Refusal Card × Server :=
  match store slip p s with
  | (.error e, s) => (.error (refusal p target e (s.records p.account)), s)
  | (.ok c, s) => (.ok c, if announce then s.publish p.account c.board (event c) else s)

/-- Move a card, with nothing in between. -/
def run (now : Float) (announce : Bool) (account card : String) (target : Key) (d : Directive)
    (board : Option Key) (s : Server) : Except Refusal Card × Server :=
  match plan now account card target d board s with
  | (.error e, s) => (.error e, s)
  | (.ok p, s) => commit announce target (.ok ()) p s

/-- A plan is for the board that was asked for. -/
theorem plan_board {now : Float} {account card : String} {target b : Key} {d : Directive}
    {s : Server} {p : Plan} (h : (plan now account card target d (some b) s).1 = .ok p) :
    p.board = b := by
  unfold plan at h
  grind

end Transition

/-- What became of the deactivation of a stage. -/
structure Deactivation where
  stage : Stage
  /-- The stage that took the cards; none if the stage was not active. -/
  fallback : Option Key := none
  migrated : List String := []

namespace Deactivation

/-- The event that tells subscribers of a deactivation. -/
def event (d : Deactivation) : Value :=
  .object [("event", "stage_deactivated"), ("stage_key", d.stage.key),
    ("fallback_stage_key", d.fallback.getD .null)]

/-- Deactivate a stage and move its cards to the first other active stage of the board. The last
active stage of a board stays. -/
def run (announce : Bool) (account id : String) : Server.Op (Except (Refusal × Key) Deactivation) := do
  let r := (← get).records account
  match r.stage? id with
  | none => pure (.error (⟨"Stage " ++ id ++ " not found", .notFound, []⟩, .null))
  | some stage =>
    if !stage.active then pure (.ok { stage })
    else
      match r.defaultStage? stage.board [stage.id] with
      | none =>
        pure (.error (⟨"Cannot deactivate the only active stage", .invalid, []⟩, stage.key))
      | some fallback =>
        -- closed before its cards leave, and it stays so if one of them cannot be stored
        discard <| Server.onStorage (Storage.setStageActive account stage.id false)
        let migrated ← Server.onStorage
          (Storage.restage account stage.board stage.key fallback.key)
        let d : Deactivation := { stage, fallback := some fallback.key, migrated }
        if announce then modify (·.publish account stage.board d.event)
        pure (.ok d)

end Deactivation

end Kanban
