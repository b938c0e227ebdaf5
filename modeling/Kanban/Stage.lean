import Kanban.Sorting
import Kanban.Value.Coerce
import Kanban.Card

/-!
# Kanban.Stage — stages

A stage is a column of a board. Its key is fixed and is what cards refer to; its position
orders the columns. A board has no record of its own: it is the stages that name it.

* `byPosition_perm` — ordering stages only rearranges them.
-/

namespace Kanban

/-- A column of a board. -/
structure Stage where
  id : String
  board : Key
  key : Key
  name : Value
  position : Int := 0
  active : Bool := true
  color : Value := .null
  icon : Value := .null
  deriving DecidableEq

namespace Stage

/-- Whether a stage stands left of another: by position, then by id. -/
def leftOf (s t : Stage) : Bool :=
  if s.position = t.position then s.id < t.id else s.position < t.position

/-- Stages from left to right. -/
def byPosition (stages : List Stage) : List Stage := Sorting.sort leftOf stages

theorem byPosition_perm (stages : List Stage) : (byPosition stages).Perm stages :=
  Sorting.sort_perm _ _

/-- The stage that a record describes. -/
def ofValue (v : Value) : Except Fault Stage := do
  let r ← v.record
  let key ← r.need "key"
  let position ← match (r.getD "position" .null).given? with
    | some n => n.toWhole
    | none => pure 0
  pure {
    id := (r.getD "stage_id" (r.getD "id" .null)).shown
    board := r.getD "board_key" defaultBoard
    key
    name := r.getD "name" key
    position
    active := (r.getD "active" (.bool true)).given
    color := r.getD "color" .null
    icon := r.getD "icon" .null }

/-- What a board listing tells of a stage. -/
def summary (s : Stage) : Value :=
  .object [("stage_id", s.id), ("key", s.key), ("name", s.name), ("position", .whole s.position),
    ("active", .bool s.active), ("color", s.color), ("icon", s.icon)]

/-- The record of a stage. -/
def toValue (s : Stage) : Value :=
  .object [("stage_id", s.id), ("board_key", s.board), ("key", s.key), ("name", s.name),
    ("position", .whole s.position), ("active", .bool s.active), ("color", s.color),
    ("icon", s.icon)]

/-- What is given of a stage when it is made. -/
structure Draft where
  key : Key
  name : Value := .null
  position : Option Int := none
  active : Bool := true
  color : Value := .null
  icon : Value := .null

/-- The stages that a new board starts with. -/
def defaults : List Draft :=
  [{ key := "new", name := "New", color := "#0EA5E9", icon := "sparkle", position := some 0 },
   { key := "qualified", name := "Qualified", color := "#8B5CF6", icon := "person-check",
     position := some 1 },
   { key := "proposal", name := "Proposal", color := "#F59E0B", icon := "document",
     position := some 2 },
   { key := "negotiation", name := "Negotiation", color := "#10B981", icon := "chat-multiple",
     position := some 3 },
   { key := "closed", name := "Closed", color := "#6B7280", icon := "checkmark-circle",
     position := some 4 }]

end Stage

end Kanban
