import Kanban.Settings
import Kanban.Transition

/-!
# Kanban.Service — what callers may ask

The service checks that the caller may use the board, fills in defaults, reads the parameters
of a request and puts answers into the shapes that clients expect. Who may use a board is
decided by a predicate on account and board; no request about a denied board reads or changes
its records.

A move is started and finished in two steps, like the transition behind it.

* `startMove_denied` — a move that is denied changes nothing.
-/

namespace Kanban

/-- The configuration of a service: settings, and who may use which board. -/
structure Service where
  settings : Settings := {}
  authorize : String → Key → Bool := fun _ _ => true

/-- A request to move a card, as it came. -/
structure MoveRequest where
  account : String
  board : Value
  card : Value
  stage : Value
  params : Value := .null

/-- The stages and cards of a board, for display. -/
structure Listing where
  board : Key
  stages : List Stage
  cards : Entries Key (List Card) := []

/-- The version of the answers. -/
def apiVersion : Value := "v1"

namespace Refusal

/-- The caller may not use the board. -/
def denied (board : Key) : Refusal where
  error := "Board '" ++ board.shown ++ "' access denied"
  code := .forbidden

/-- The details of a refusal, null if there are none. -/
def detailsValue (r : Refusal) : Value := if r.details.isEmpty then .null else .object r.details

/-- A refusal as an answer. -/
def toValue (r : Refusal) : Value :=
  .object [("error", r.error), ("error_code", r.code.name), ("details", r.detailsValue),
    ("api_version", apiVersion)]

end Refusal

namespace Moved

/-- The answer to a move that was carried out. -/
def toValue (c : Card) : Value :=
  .object [("card_id", c.id), ("committed_stage_key", c.stage),
    ("committed_position", .real c.position), ("card", c.summary), ("status", "success"),
    ("message", "Card moved successfully"), ("api_version", apiVersion)]

/-- The part of the answer that a client needs. -/
def toPayload (c : Card) : Value :=
  .object [("status", "success"), ("card_id", c.id), ("committed_stage_key", c.stage),
    ("committed_position", .real c.position)]

end Moved

/-- Text of a key that names an entry of an answer. -/
def Value.entryName (k : Key) : String :=
  match Card.attributeKey k with
  | .ok s => s
  | .error _ => k.shown

namespace Listing

/-- The cards of a listing by stage. -/
def cardsValue (l : Listing) : Value :=
  .object (l.cards.map fun e => (e.1.entryName, .list (e.2.map Card.summary)))

/-- A listing as clients read it. -/
def toPayload (l : Listing) : Value :=
  .object [("board_key", l.board), ("stages", .list (l.stages.map Stage.summary)),
    ("cards_by_stage", l.cardsValue)]

/-- A listing as an answer. -/
def toValue (l : Listing) : Value :=
  .object [("board_key", l.board), ("stages", .list (l.stages.map Stage.summary)),
    ("cards_by_stage", l.cardsValue), ("api_version", apiVersion)]

/-- The stages of a listing as an answer. -/
def stagesValue (l : Listing) : Value :=
  .object [("board_key", l.board), ("stages", .list (l.stages.map Stage.summary)),
    ("api_version", apiVersion)]

end Listing

namespace Deactivation

/-- A deactivation as an answer. -/
def toValue (d : Deactivation) : Value :=
  .object [("success", .bool true), ("stage_id", d.stage.id), ("stage_key", d.stage.key),
    ("fallback_stage_key", d.fallback.getD .null),
    ("migrated_card_ids", .list (d.migrated.map .text)), ("api_version", apiVersion)]

end Deactivation

namespace Service

/-- The board a request is about. -/
def boardOf (v : Service) (board : Value) : Key := board.given?.getD v.settings.defaultBoard

/-- The first cards of a list; below zero the limit counts from the end. -/
def firstCards (limit : Int) (cards : List Card) : List Card :=
  if limit < 0 then cards.take (cards.length - limit.natAbs) else cards.take limit.toNat

/-- Check a move request and plan it. -/
def startMove (v : Service) (now : Float) (q : MoveRequest) : Server.Op (Except Refusal Plan) := do
  let board := v.boardOf q.board
  if !v.authorize q.account board then return .error (.denied board)
  if !q.card.given || !q.stage.given then
    return .error { error := "card_id and stage_key are required", code := .validation }
  match Directive.ofParams q.params with
  | .error .wrongKind | .error .malformed =>
    return .error {
      error := "Invalid position parameters", code := .validation
      details := [("position_params", q.params)] }
  | .error f => throw (.unreadable f)
  | .ok d =>
    Server.use q.account
    -- the parameters are read before the account is used, and the card id after
    let card ← Failure.ofReading q.card.toText
    let s ← get
    let (p, s) := Transition.plan now q.account card q.stage d (some board) s
    set s
    return p

/-- Store a planned move. -/
def finishMove (slip : Except Failure Unit) (p : Plan) (target : Key) :
    Server.Op (Except Refusal Card) := do
  let (r, s) := Transition.commit true target slip p (← get)
  set s
  return r

/-- Move a card, with nothing in between. -/
def move (v : Service) (now : Float) (q : MoveRequest) : Server.Op (Except Refusal Card) := do
  match ← v.startMove now q with
  | .error e => return .error e
  | .ok p => finishMove (.ok ()) p q.stage

/-- Deactivate a stage. -/
def deactivate (v : Service) (account : String) (stage : Value) :
    Server.Op (Except Refusal Deactivation) := do
  Server.use account
  let id := stage.shown
  match ((← get).records account).stage? id with
  | none => return .error { error := "Stage " ++ id ++ " not found", code := .notFound }
  | some s =>
    -- the board is known only once the stage is found
    if !v.authorize account s.board then return .error (.denied s.board)
    match ← Deactivation.run true account s.id with
    | .ok d => return .ok d
    | .error (r, k) =>
      return .error { r with details := if k.given then [("stage_key", k)] else [] }

/-- A board with the first cards of its active stages, unread cards first. -/
def board (v : Service) (account : String) (board : Value) :
    Server.Op (Except Refusal Listing) := do
  let b := v.boardOf board
  if !v.authorize account b then return .error (.denied b)
  Server.use account
  let r := (← get).records account
  let stages := r.activeStages b
  -- the answer is filed under the keys of the stages
  if !stages.all (·.key.isName) then throw (.unreadable .wrongKind)
  let shown (s : Stage) : List Card :=
    displayOrder below (firstCards v.settings.stageCardLimit (r.cardsIn b s.key))
  return .ok { board := b, stages, cards := Entries.ofList (stages.map fun s => (s.key, shown s)) }

/-- All stages of a board. -/
def stages (v : Service) (account : String) (board : Value) :
    Server.Op (Except Refusal Listing) := do
  let b := v.boardOf board
  if !v.authorize account b then return .error (.denied b)
  Server.use account
  return .ok { board := b, stages := ((← get).records account).stagesOf b }

/-- Subscribe to the events of a board; gives the number of the subscription. -/
def subscribe (v : Service) (account : String) (board : Value) : Server.Op Nat := do
  let b := v.boardOf board
  if !v.authorize account b then throw (.accessDenied b)
  let s ← get
  let (n, c) := s.channel.subscribe (Channel.keyOf account b)
  set { s with channel := c }
  return n

/-- A denied move changes nothing. -/
theorem startMove_denied {v : Service} {q : MoveRequest}
    (h : v.authorize q.account (v.boardOf q.board) = false) (now : Float) (s : Server) :
    (v.startMove now q) s = (.ok (.error (.denied (v.boardOf q.board))), s) := by
  simp [startMove, h]
  rfl

end Service

end Kanban
