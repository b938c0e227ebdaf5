import Kanban.Allocator
import Kanban.Projection.Basic

/-!
# Kanban.Projection.Moves — local moves

A local move takes effect at once, at a provisional position, and is settled once: it is
confirmed, and the committed position replaces the provisional one, or it is rolled back, and
the card returns to the place it came from.

A later move of the same card replaces an unsettled one. The replaced move moves the card no
more; the later one goes back to where the card was before both, or to where the first was
committed. A move that an event or a refresh superseded changes nothing when it is settled.

A failure that has no words settles its move and goes no further.

* `confirm_settled`, `giveUp_settled`, `rollback_settled` — settling a settled move changes nothing.
-/

namespace Kanban

namespace Projection

/-- Take the card at a place out of its column. -/
def takeOut (place : Key × Nat) (p : Projection) : Projection :=
  p.setColumn place.1 ((p.column place.1).eraseIdx place.2)

/-- Put a card into a column at an index, and the column in order. -/
def putIn (stage : Key) (i : Nat) (t : Tile) (p : Projection) : Projection :=
  (p.setColumn stage ((p.column stage).insertIdx i { t with stage })).resort stage

/-- Put a card at a position of a stage, wherever it is; nothing happens if it is nowhere. -/
def place (card : String) (stage : Key) (x : Mark) (p : Projection) : Projection :=
  match p.locate card with
  | none => p
  | some (k, i) =>
    match p.tileAt (k, i) with
    | none => p
    | some t =>
      if k = stage then
        (p.setColumn stage ((p.column stage).set i { t with position := x })).resort stage
      else
        let p := p.takeOut (k, i)
        p.putIn stage (p.column stage).length { t with position := x }

/-- The move waits for its outcome no more. -/
def clearPending (m : Move) (p : Projection) : Projection :=
  if Entries.get? m.card p.pending = some m.id then
    { p with pending := Entries.erase m.card p.pending }
  else p

/-- What a move comes to on the cards of a column: the place in the list and the position. A
position that is no number cannot be compared or reckoned with. -/
def aim (now : Float) (d : Directive) (tiles : List Tile) (a : Allocator) :
    Except Fault (Nat × Float) × Allocator :=
  let above (x : Mark) (y : Float) : Bool := Mark.lt (.real y) x
  let index := d.insertIndex above tiles
  -- only an exact position is compared, and only with the cards before its place
  let compared : List Tile :=
    if (Directive.indexOf tiles d.after).isSome || (Directive.indexOf tiles d.before).isSome ||
      d.absolute.isNone then []
    else tiles.take index
  if compared.any fun t => t.position.number?.isNone then (.error .wrongKind, a)
  else
    let number (x : Mark) : Except Fault Float :=
      match x.number? with
      | some y => .ok y
      | none => .error .wrongKind
    let placement : Except Fault (Placement Float) :=
      match d.placement tiles with
      | .exactly x => .ok (.exactly x)
      | .between x y => do pure (.between (← number x) (← number y))
      | .after x => .after <$> number x
      | .before x => .before <$> number x
      | .last => .ok .last
    match placement with
    | .error f => (.error f, a)
    | .ok q =>
      let (x, a) := a.place now q
      (.ok (index, x), a)

/-- Record a new move, replacing the unsettled one of the same card. -/
def track (m : Move) (p : Projection) : Projection :=
  match p.pendingMove m.card with
  | none =>
    { p with moves := Entries.put m.id m p.moves, pending := Entries.put m.card m.id p.pending }
  | some previous =>
    -- a move that was overridden passes on no origin: the card is where the server has it
    let m := if previous.superseded then m else
      { m with
        fromStage := previous.fromStage, fromIndex := previous.fromIndex
        fromMark := previous.fromMark, stray := previous.stray }
    let p := p.updateMove previous.id ({ · with replacedBy := some m.id })
    { p with moves := Entries.put m.id m p.moves, pending := Entries.put m.card m.id p.pending }

/-- Move a card here and now; gives the number of the move. A move that cannot be placed loses the
card: it was taken out and is not put in again. -/
def begin (now : Float) (card : String) (target : Key) (d : Directive) (a : Allocator)
    (p : Projection) : Except Failure Nat × Projection × Allocator :=
  match p.locate card with
  | none => (.error (.notOnBoard card p.board), p, a)
  | some (k, i) =>
    match p.tileAt (k, i) with
    | none => (.error (.notOnBoard card p.board), p, a)
    | some t =>
      let n := p.nextMove
      -- the card is out of its column from here on, whatever else fails
      let p := { p.takeOut (k, i) with nextMove := n + 1 }
      if !target.isName then (.error (.unreadable .wrongKind), p, a)
      else
        let p := { p with columns := Entries.ensure target [] p.columns }
        match aim now d (p.column target) a with
        | (.error f, a) => (.error (.unreadable f), p, a)
        | (.ok (index, x), a) =>
          let p := p.putIn target index { t with position := .real x }
          if p.jumbled then (.error (.unreadable .wrongKind), { p with jumbled := false }, a)
          else
            let m : Move := {
              id := n, card, fromStage := k, fromIndex := i, fromMark := t.position
              toStage := target, directive := d, provisional := x }
            (.ok n, p.track m, a)

/-- The last of the moves that replaced one another, starting from one of them. -/
def latest (p : Projection) : Nat → Move → Move
  | 0, m => m
  | fuel + 1, m =>
    match m.replacedBy.bind fun n => Entries.get? n p.moves with
    | some later => latest p fuel later
    | none => m

/-- Let the latest move that replaced a committed one go back to where that one was committed. -/
def rebase (m : Move) (stage : Key) (x : Mark) (p : Projection) : Projection :=
  let last := p.latest p.moves.length m
  if last.state ≠ .optimistic ∨ last.superseded then p
  else p.updateMove last.id fun l =>
    { l with
      fromStage := stage, fromMark := x, stray := false, fromIndex := (p.column stage).length }

/-- The server has committed a move, at the stage and position given. Nothing says so without a
position. -/
def confirm (n : Nat) (stage : Option Key) (position : Option Mark) (p : Projection) :
    Projection :=
  match Entries.get? n p.moves with
  | none => p
  | some m =>
    if m.state ≠ .optimistic then p
    else
      let p := p.updateMove n fun m =>
        { m with state := .confirmed, committed := (position.map Mark.toValue).getD .null }
      let p := p.clearPending m
      match position with
      | none => p
      | some x =>
        let stage := stage.getD m.toStage
        -- whether the move was overridden is looked at only if no other replaced it
        if m.replacedBy.isSome then p.rebase m stage x
        else if m.superseded then p
        else p.place m.card stage x

/-- Take the card at a place out. A column that nothing stands for goes when its last card leaves. -/
def withdraw (place : Key × Nat) (p : Projection) : Projection :=
  let p := p.takeOut place
  if (p.column place.1).isEmpty && !(p.activeStages.any fun s => s.key = place.1) then
    { p with columns := Entries.erase place.1 p.columns }
  else p

/-- Take a card back to the place a move took it from. -/
def restore (m : Move) (p : Projection) : Projection :=
  match p.locate m.card with
  | none => p
  | some (k, i) =>
    match p.tileAt (k, i) with
    | none => p
    | some t =>
      let p := p.withdraw (k, i)
      let i := min m.fromIndex (p.column m.fromStage).length
      p.putIn m.fromStage i { t with position := m.fromMark }

/-- Take a card away that has no place to go back to. -/
def banish (m : Move) (p : Projection) : Projection :=
  match p.locate m.card with
  | none => p
  | some place => { p.withdraw place with jumbled := true }

/-- A move has failed: it is settled, and it waits for its outcome no more. -/
def giveUp (n : Nat) (error : Option Failure) (p : Projection) : Projection :=
  match Entries.get? n p.moves with
  | none => p
  | some m =>
    if m.state ≠ .optimistic then p
    else (p.updateMove n fun m => { m with state := .rolledBack, error }).clearPending m

/-- A move has failed, and its card goes back. -/
def rollback (n : Nat) (error : Option Reason) (p : Projection) : Projection :=
  match Entries.get? n p.moves with
  | none => p
  | some m =>
    if m.state ≠ .optimistic then p
    else
      let p := { p.giveUp n (error.map (·.failure)) with error := error.map Reason.words }
      -- settled in any case; whether the card goes back depends on who moved it since
      if m.superseded || m.replacedBy.isSome then p
      else if m.stray then p.banish m
      else p.restore m

/-- Settling a settled move changes nothing. -/
theorem confirm_settled {n : Nat} {p : Projection} {m : Move} (h : Entries.get? n p.moves = some m)
    (hs : m.state ≠ .optimistic) (stage : Option Key) (position : Option Mark) :
    p.confirm n stage position = p := by
  simp [confirm, h, hs]

/-- Settling a settled move changes nothing. -/
theorem giveUp_settled {n : Nat} {p : Projection} {m : Move} (h : Entries.get? n p.moves = some m)
    (hs : m.state ≠ .optimistic) (error : Option Failure) : p.giveUp n error = p := by
  simp [giveUp, h, hs]

/-- Settling a settled move changes nothing. -/
theorem rollback_settled {n : Nat} {p : Projection} {m : Move}
    (h : Entries.get? n p.moves = some m) (hs : m.state ≠ .optimistic) (error : Option Reason) :
    p.rollback n error = p := by
  simp [rollback, h, hs]

end Projection

end Kanban
