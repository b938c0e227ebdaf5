import Kanban.Directive
import Kanban.Failure
import Kanban.Stage

/-!
# Kanban.Projection.Basic — a client's view of a board

A client shows the cards of a board in columns, one for each stage key, and keeps a record of
its own moves. A move is optimistic until the server's answer or its broadcast settles it; the
record holds where the card has to go back to if the move fails.

Positions come from the server as they are written there; one that is not a number is kept
but has no place in an order, and a column with such a position and others beside it cannot
be put in order.

* `arrange_perm` — putting a column in order only rearranges it.
* `locate_mem` — a card that is located is in the column where it is located.
-/

namespace Kanban

/-- A position as a client holds it: a number, or what the server wrote instead. -/
inductive Mark where
  | real (x : Float)
  | raw (v : Value)
  deriving DecidableEq

namespace Mark

/-- The number a mark stands for. -/
def number? : Mark → Option Float
  | .real x => some x
  | .raw (.real x) => some x
  | .raw (.whole n) =>
    let x := Decimal.closest n.natAbs 0
    some (if n < 0 then -x else x)
  | .raw (.bool b) => some (if b then 1.0 else 0.0)
  | .raw _ => none

/-- The text a mark is. -/
def text? : Mark → Option String
  | .raw (.text s) => some s
  | _ => none

/-- Whether a mark stands below another. -/
def lt (a b : Mark) : Bool :=
  match a.number?, b.number? with
  | some x, some y => below x y
  | _, _ =>
    match a.text?, b.text? with
    | some s, some t => s < t
    | _, _ => false

/-- A mark as written. -/
def toValue : Mark → Value
  | .real x => .real x
  | .raw v => v

/-- Whether marks can be put in order: all are numbers, or all are text, or there is but one. -/
def comparable (ms : List Mark) : Bool :=
  ms.length ≤ 1 || ms.all (·.number?.isSome) || ms.all (·.text?.isSome)

end Mark

/-- A card as a client shows it. -/
abbrev Tile := CardWith Mark

namespace Tile

/-- A card of the server as a client shows it. -/
def ofCard (c : Card) : Tile := c.mapPosition .real

/-- The record of a tile. -/
def toValue (t : Tile) : Value := t.toValueWith Mark.toValue

end Tile

/-- Whether a column can be put in order. -/
def canArrange (tiles : List Tile) : Bool :=
  Mark.comparable ((tiles.filter (·.isUnread)).map (·.position)) &&
    Mark.comparable ((tiles.filter fun t => !t.isUnread).map (·.position))

/-- A column in display order, if it can be put in order. -/
def arrange (tiles : List Tile) : List Tile :=
  if canArrange tiles then displayOrder Mark.lt tiles else tiles

theorem arrange_perm (tiles : List Tile) : (arrange tiles).Perm tiles := by
  unfold arrange
  split
  · exact displayOrder_perm _ _
  · exact .refl _

/-- What has become of a local move. -/
inductive MoveState where
  | optimistic
  | confirmed
  | rolledBack
  deriving DecidableEq

/-- The state of a move in a word. -/
def MoveState.name : MoveState → String
  | .optimistic => "optimistic"
  | .confirmed => "confirmed"
  | .rolledBack => "rolled_back"

/-- The record of one local move. -/
structure Move where
  id : Nat
  card : String
  /-- Where the card goes back to if the move fails: the last place the server agreed with. -/
  fromStage : Key
  fromIndex : Nat
  fromMark : Mark
  /-- Whether the place to go back to was overwritten by a stage that cannot be a key. -/
  stray : Bool := false
  toStage : Key
  directive : Directive
  /-- The position the card has until the server answers. -/
  provisional : Float
  state : MoveState := .optimistic
  /-- Whether an event or a refresh overrode the move. -/
  superseded : Bool := false
  /-- The later local move of the same card. -/
  replacedBy : Option Nat := none
  committed : Value := .null
  error : Option Failure := none
  deriving DecidableEq

/-- A client's view of one board. -/
structure Projection where
  board : Key := defaultBoard
  stages : List Stage := []
  columns : Entries Key (List Tile) := []
  /-- The moves made so far, by number. -/
  moves : Entries Nat Move := []
  /-- The move of each card that waits for its outcome. -/
  pending : Entries String Nat := []
  nextMove : Nat := 1
  /-- Why the last move failed. -/
  error : Option String := none
  /-- Whether the last change could not be finished: a column cannot be put in order, or a card was
  to go back to a stage that cannot be a key. -/
  jumbled : Bool := false

namespace Projection

/-- The cards of a column. -/
def column (stage : Key) (p : Projection) : List Tile := (Entries.get? stage p.columns).getD []

/-- Set the cards of a column. -/
def setColumn (stage : Key) (tiles : List Tile) (p : Projection) : Projection :=
  { p with columns := Entries.put stage tiles p.columns }

/-- Where a card is among columns: its column and its place there. -/
def locateIn (card : String) : Entries Key (List Tile) → Option (Key × Nat)
  | [] => none
  | (k, tiles) :: rest =>
    match tiles.findIdx? (·.id == card) with
    | some i => some (k, i)
    | none => locateIn card rest

/-- Where a card is. -/
def locate (card : String) (p : Projection) : Option (Key × Nat) := locateIn card p.columns

/-- The tile at a place. -/
def tileAt (place : Key × Nat) (p : Projection) : Option Tile := (p.column place.1)[place.2]?

/-- A card that is located is in the column where it is located. -/
theorem locate_mem {card : String} {cs : Entries Key (List Tile)} {k : Key} {i : Nat}
    (h : locateIn card cs = some (k, i)) :
    ∃ tiles, (k, tiles) ∈ cs ∧ ∃ hi : i < tiles.length, tiles[i].id = card := by
  induction cs with
  | nil => simp [locateIn] at h
  | cons e rest ih =>
    obtain ⟨k', tiles⟩ := e
    unfold locateIn at h
    split at h
    · rename_i j hj
      simp only [Option.some.injEq, Prod.mk.injEq] at h
      obtain ⟨rfl, rfl⟩ := h
      obtain ⟨hi, ht, _⟩ := List.findIdx?_eq_some_iff_getElem.1 hj
      exact ⟨tiles, by simp, hi, by simpa using ht⟩
    · obtain ⟨tiles', hm, hr⟩ := ih h
      exact ⟨tiles', List.mem_cons_of_mem _ hm, hr⟩

/-- The stages that are active. -/
def activeStages (p : Projection) : List Stage := p.stages.filter (·.active)

/-- The move of a card that waits for its outcome. -/
def pendingMove (card : String) (p : Projection) : Option Move :=
  (Entries.get? card p.pending).bind fun n => Entries.get? n p.moves

/-- Whether the outcome of a move is open. -/
def isOpen (n : Nat) (p : Projection) : Bool :=
  (Entries.get? n p.moves).any fun m => m.state = .optimistic

/-- Whether a move waits for its outcome. -/
def isMoving (p : Projection) : Bool := !p.pending.isEmpty

/-- Change the record of a move. -/
def updateMove (n : Nat) (f : Move → Move) (p : Projection) : Projection :=
  match Entries.get? n p.moves with
  | some m => { p with moves := Entries.put n (f m) p.moves }
  | none => p

/-- Mark all moves that wait for their outcome and satisfy a test as superseded. -/
def supersede (test : Move → Bool) (p : Projection) : Projection :=
  (Entries.values p.pending).foldl
    (fun p n => p.updateMove n fun m => { m with superseded := m.superseded || test m }) p

/-- Put a column in order. -/
def resort (stage : Key) (p : Projection) : Projection :=
  { p.setColumn stage (arrange (p.column stage)) with jumbled := !canArrange (p.column stage) }

/-- The columns with their cards as records. -/
def snapshot (p : Projection) : Entries Key (List Value) :=
  p.columns.map fun e => (e.1, e.2.map Tile.toValue)

end Projection

end Kanban
