import Kanban.Sorting
import Kanban.Value.Coerce

/-!
# Kanban.Card — cards

A card belongs to one stage of one board and has a position, a number that only orders the
cards of that stage. What else a card carries is opaque: a count of unread messages, which
lifts it in the display, and attributes.

The server keeps positions as floats; a client may have to keep a position that it could not
make sense of, so the type of positions is a parameter.

* `displayOrder_perm` — putting cards in display order only rearranges them.
-/

namespace Kanban

/-- The board that is meant when none is named. -/
def defaultBoard : String := "sales"

/-- The gap between a card and a neighbour it is placed after or before. -/
def defaultGap : Float := 1000.0

/-- A card with positions of some type. -/
structure CardWith (π : Type) where
  id : String
  board : Key
  stage : Key
  position : π
  unread : Int := 0
  attributes : Entries String Value := []
  deriving DecidableEq

/-- A card as the server keeps it. -/
abbrev Card := CardWith Float

namespace CardWith

variable {π ρ : Type}

/-- The card with its position changed. -/
def mapPosition (f : π → ρ) (c : CardWith π) : CardWith ρ := { c with position := f c.position }

/-- Whether the card asks for attention. -/
def isUnread (c : CardWith π) : Bool := 0 < c.unread

/-- Whether a card is shown before another: unread cards first, then by position. -/
def shownBefore (lt : π → π → Bool) (c d : CardWith π) : Bool :=
  if c.isUnread == d.isUnread then lt c.position d.position else c.isUnread

end CardWith

/-- Whether a position is below another. Nothing is below or above an undefined position. -/
def below (x y : Float) : Bool := x < y

/-- Cards as they are shown; cards of equal rank keep their order. -/
def displayOrder {π : Type} (lt : π → π → Bool) (cards : List (CardWith π)) : List (CardWith π) :=
  Sorting.sort (CardWith.shownBefore lt) cards

theorem displayOrder_perm {π : Type} (lt : π → π → Bool) (cards : List (CardWith π)) :
    (displayOrder lt cards).Perm cards := Sorting.sort_perm _ _

namespace Card

/-- Cards by position; cards at equal positions keep their order. -/
def byPosition (cards : List Card) : List Card :=
  Sorting.sort (fun c d => below c.position d.position) cards

/-- The position of a card that was never placed: cards with a numeral as their id are spread out
in the order of the numerals, all others start at zero. -/
def defaultPosition (id : String) : Float :=
  match Decimal.realOf? id with
  | some x => x * defaultGap
  | none => 0.0

/-- The default position for an id as it came. -/
def defaultPositionOf (id : Value) : Except Fault Float :=
  match id.toReal with
  | .ok x => .ok (x * defaultGap)
  -- An integer beyond the floats is neither kind of error, and is not caught.
  | .error .wrongKind | .error .malformed => .ok 0.0
  | .error e => .error e

/-- The key under which an attribute is kept: attributes are named by text. -/
def attributeKey : Value → Except Fault String
  | .text s => .ok s
  | .null => .ok "null"
  | .bool b => .ok (if b then "true" else "false")
  | .whole n => .ok (toString n)
  | .real x => .ok (Decimal.render .file x)
  | .list _ | .object _ => .error .wrongKind

/-- One attribute given as a pair. -/
def attributeOf (pair : Value) : Except Fault (String × Value) := do
  match ← pair.items with
  | [k, v] => pure (← attributeKey k, v)
  | _ => throw .malformed

/-- Attributes given as an object or as a list of pairs. -/
def attributesOf : Value → Except Fault (Entries String Value)
  | .object entries => .ok entries
  | v => do
    let pairs ← (← v.items).mapM attributeOf
    pure (Entries.ofList pairs)

/-- The card that a record describes. -/
def ofValue (v : Value) : Except Fault Card := do
  let r ← v.record
  let id := (r.getD "card_id" (r.getD "id" .null)).shown
  let stage ← r.need "stage_key"
  -- Nothing, zero, the empty text and the empty list all count as not given.
  let unread ← match (r.getD "unread_count" .null).given? with
    | some n => n.toWhole
    | none => pure 0
  let attributes ← match (r.getD "attributes" .null).given? with
    | some a => attributesOf a
    | none => pure []
  let position ← match r.getD "position" .null with
    | .null => pure (defaultPosition id)
    | x => x.toReal
  pure { id, board := r.getD "board_key" defaultBoard, stage, position, unread, attributes }

end Card

namespace CardWith

variable {π : Type}

/-- The record of a card, its position written by `f`. -/
def toValueWith (f : π → Value) (c : CardWith π) : Value :=
  .object [("card_id", c.id), ("board_key", c.board), ("stage_key", c.stage),
    ("position", f c.position), ("unread_count", .whole c.unread),
    ("attributes", .object c.attributes)]

/-- What a board listing tells of a card. -/
def summaryWith (f : π → Value) (c : CardWith π) : Value :=
  .object [("card_id", c.id), ("stage_key", c.stage), ("position", f c.position),
    ("unread_count", .whole c.unread), ("attributes", .object c.attributes)]

end CardWith

namespace Card

/-- The record of a card. -/
def toValue (c : Card) : Value := c.toValueWith .real

/-- What a board listing tells of a card. -/
def summary (c : Card) : Value := c.summaryWith .real

end Card

end Kanban
