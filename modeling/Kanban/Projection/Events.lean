import Kanban.Projection.Moves

/-!
# Kanban.Projection.Events — what comes from the server

Broadcast events and full reads of the board. A broadcast that brings a card where its own
unsettled move was to bring it confirms the move; any other broadcast about the card
supersedes it, and what the server says wins. A deactivated stage is folded into another. A
refresh replaces everything, and unsettled moves will not move their cards any more.
-/

namespace Kanban

namespace Projection

/-- An unsettled move hears that its card was moved: it is confirmed, at the position if it could
be read, or superseded. -/
def hear (card : String) (stage : Key) (x : Option Float) (p : Projection) : Projection :=
  match p.pendingMove card with
  | none => p
  | some m =>
    if m.state ≠ .optimistic then p
    -- the stage alone decides whether this is the move itself: the position is the server's
    else if stage = m.toStage ∧ m.superseded = false then
      match x with
      | some x =>
        (p.updateMove m.id fun m => { m with state := .confirmed, committed := .real x }).clearPending m
      | none => p.updateMove m.id ({ · with state := .confirmed })
    else p.updateMove m.id ({ · with superseded := true })

/-- A card was moved by someone; tells whether it is shown here. -/
def remoteMove (card : String) (stage : Key) (x : Float) (p : Projection) : Bool × Projection :=
  ((p.locate card).isSome, (p.hear card stage (some x)).place card stage (.real x))

/-- A stage was deactivated and its cards taken over by another; tells whether it had any here. -/
def fold (stage fallback : Key) (p : Projection) : Bool × Projection :=
  let moved := p.column stage
  let p := { p with
    stages := p.stages.map fun s : Stage =>
      if s.key = stage then { s with active := false } else s
    columns := Entries.erase stage p.columns }
  -- a move to or from the stage that is gone is overridden
  let p := p.supersede fun m => m.toStage = stage || m.fromStage = stage
  if moved.isEmpty then (false, p)
  else
    let tiles := p.column fallback ++ moved.map ({ · with stage := fallback })
    (true, (p.setColumn fallback tiles).resort fallback)

/-- Show a board as it was read. -/
def refresh (columns : Entries Key (List Card)) (p : Projection) : Projection :=
  let shown := columns.foldl
    (fun m e => Entries.put e.1 ((displayOrder below e.2).map Tile.ofCard) m)
    (Entries.ofList (p.activeStages.map fun s => (s.key, [])))
  -- no move that is under way moves its card after this
  { (p.supersede fun _ => true) with columns := shown, error := none }

/-- A card that was moved away for good because its target cannot be a key. -/
def lose (card : String) (p : Projection) : Projection :=
  match p.locate card with
  | none => p
  | some place => p.takeOut place

/-- An operation on a projection. What it did before it failed stays done. -/
abbrev Op (α : Type) := ExceptT Failure (StateM Projection) α

/-- Fail if the last change could not be finished. -/
def checkOrder : Op Unit := do
  let p ← get
  if p.jumbled then
    set { p with jumbled := false }
    throw (.unreadable .wrongKind)

/-- A card was moved, as an event tells it. -/
def hearMove (card : String) (stage position : Value) : Op Bool := do
  match position.toReal with
  | .error f =>
    modify (·.hear card stage none)
    throw (.unreadable f)
  | .ok x =>
    if !stage.isName && ((← get).locate card).isSome then
      modify fun p => (p.hear card stage (some x)).lose card
      throw (.unreadable .wrongKind)
    let (b, p) := (← get).remoteMove card stage x
    set p
    checkOrder
    pure b

/-- A stage was deactivated, as an event tells it. -/
def hearFold (stage fallback : Value) : Op Bool := do
  if !stage.isName then throw (.unreadable .wrongKind)
  let (b, p) := (← get).fold stage fallback
  if b && !fallback.isName then
    set { p with columns := Entries.erase fallback p.columns, jumbled := false }
    throw (.unreadable .wrongKind)
  set p
  checkOrder
  pure b

/-- Apply an event; tells whether the columns changed. Events that are not known are ignored. -/
def applyEvent (e : Value) : Op Bool := do
  let r ← Failure.ofReading e.record
  match r.getD "event" .null with
  | .text "card_moved" =>
    let card ← Failure.ofReading (r.need "card_id")
    let stage ← Failure.ofReading (r.need "stage_key")
    let position ← Failure.ofReading (r.need "position")
    let id ← Failure.ofReading card.toText
    hearMove id stage position
  | .text "stage_deactivated" =>
    let stage ← Failure.ofReading (r.need "stage_key")
    let fallback ← Failure.ofReading (r.need "fallback_stage_key")
    hearFold stage fallback
  | _ => pure false

/-- A record with entries that are used where it has none of its own. -/
def withDefaults (defaults : Entries String Value) : Value → Except Fault Value
  | .object es => .ok (.object (Entries.merge defaults es))
  | _ => .error .wrongKind

/-- The cards of one column of a board as it was read. -/
def readColumn (board : Key) (e : String × Value) : Except Fault (Key × List Card) := do
  let cards ← (← e.2.items).mapM fun v => do
    Card.ofValue (← withDefaults [("board_key", board), ("stage_key", e.1)] v)
  pure (.text e.1, cards)

/-- Show a board as it was read, from the answer of the server. -/
def applyRefresh (payload : Value) : Op Unit := do
  let r ← Failure.ofReading payload.record
  let board := r.getD "board_key" (← get).board
  modify ({ · with board })
  let stages ← Failure.ofReading do
    (← (r.getD "stages" (.list [])).items).mapM fun v => do
      Stage.ofValue (← withDefaults [("board_key", board)] v)
  modify ({ · with stages })
  if stages.any fun s => s.active && !s.key.isName then throw (.unreadable .wrongKind)
  let columns ← Failure.ofReading do
    match (r.getD "cards_by_stage" .null).given? with
    | none => pure []
    | some v => (← v.record).mapM (readColumn board)
  modify (·.refresh columns)

end Projection

end Kanban
