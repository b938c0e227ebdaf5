import Kanban.Directive
import Kanban.Failure

/-!
# Kanban.Http.MoveBody — the body of a move request

A posted move is checked field by field, and all that is wrong with it is reported together:
the card id is text (whole numbers are taken as their numerals), the stage key is text, and
the position parameters, if given, are a number and two ids. Fields that are not known are
ignored.

The conversions of single fields are those that pydantic documents for its lax mode: a number may
come as a number of any kind, as a truth value or as a numeral, and a text only as a text.
-/

namespace Kanban.Http

/-- Checked position parameters. -/
structure Position where
  absolute : Option Float := none
  after : Option String := none
  before : Option String := none
  deriving DecidableEq

/-- A checked move request. -/
structure MoveBody where
  card : String
  stage : String
  position : Option Position := none
  deriving DecidableEq

/-- A check gives a value, or everything that is wrong. -/
abbrev Checked (α : Type) := Except (List Issue) α

namespace Checked

/-- Two checks made together: what is wrong in both is reported. -/
def both {α β : Type} (a : Checked α) (b : Checked β) : Checked (α × β) :=
  match a, b with
  | .ok x, .ok y => .ok (x, y)
  | .ok _, .error is => .error is
  | .error is, .ok _ => .error is
  | .error is, .error js => .error (is ++ js)

/-- Put a step in front of the paths of a check. -/
def under {α : Type} (step : String) (a : Checked α) : Checked α :=
  a.mapError fun is => is.map fun i => { i with path := step :: i.path }

end Checked

/-- One issue with a field. -/
def issue {α : Type} (path : List String) (kind : Issue.Kind) : Checked α := .error [⟨path, kind⟩]

/-- Whether two underscores stand together. -/
def hasDouble : List Char → Bool
  | '_' :: '_' :: _ => true
  | _ :: rest => hasDouble rest
  | [] => false

/-- Take out the underscores of a numeral, which may stand neither at its ends nor together. -/
def dropUnderscores (cs : List Char) : Option (List Char) :=
  if cs.head? = some '_' ∨ cs.getLast? = some '_' ∨ hasDouble cs then none
  else some (cs.filter (· ≠ '_'))

/-- A blank as numerals in requests may have around them. -/
def isPadding (c : Char) : Bool := Text.isBlank c && !(28 ≤ c.toNat && c.toNat ≤ 31)

/-- The number that a text in a request denotes, by the rule that pydantic documents for numbers given
as text: a decimal numeral, infinity or not-a-number, with blanks around it or with single
underscores between its characters, but not both. Only ASCII digits count. -/
def numeral? (s : String) : Option Float :=
  match Decimal.Numeral.signed? (Text.trimBy isPadding s.toList) with
  | some x => some x
  | none => (dropUnderscores s.toList).bind Decimal.Numeral.signed?

/-- An optional number, by the documented conversions to a float: null is no number given, a text is
one if it is a numeral, whole numbers and truth values are taken as they count, and nothing else is a
number. -/
def checkNumber (name : String) : Value → Checked (Option Float)
  | .null => .ok none
  | .text s => match numeral? s with
    | some x => .ok (some x)
    | none => issue [name] .badNumeral
  | v => match v.toReal with
    | .ok x => .ok (some x)
    | .error _ => issue [name] .notNumber

/-- An optional text, by the documented conversions to one: null is no text given, and numbers are no
texts. -/
def checkText (name : String) : Value → Checked (Option String)
  | .null => .ok none
  | .text s => .ok (some s)
  | _ => issue [name] .notText

/-- A text that has to be there and has to have characters. -/
def checkRequired (name : String) : Option Value → Checked String
  | none => issue [name] .missing
  | some (.text s) => if s = "" then issue [name] .emptyText else .ok s
  | some _ => issue [name] .notText

/-- The exact position under either of its spellings. -/
def absoluteOf (r : Entries String Value) : Value :=
  match Entries.get? "absolute" r with
  | some v => v
  | none => r.getD "absolute_position" .null

namespace Position

/-- Check position parameters field by field, each as documented for its type, and report all that
is wrong; `kind` is what is reported of a value that is no record. -/
def check (kind : Issue.Kind) : Value → Checked Position
  | .object r => do
    let (absolute, after, before) ← Checked.both (checkNumber "absolute" (absoluteOf r))
      (Checked.both (checkText "after_id" (Entries.getD "after_id" r .null))
        (checkText "before_id" (Entries.getD "before_id" r .null)))
    pure { absolute, after, before }
  | _ => issue [] kind

/-- All fields, those not given as null. -/
def toValue (p : Position) : Value :=
  .object [("absolute", (p.absolute.map Value.real).getD .null),
    ("after_id", Value.ofText? p.after), ("before_id", Value.ofText? p.before)]

/-- The fields that are given. -/
def toParams (p : Position) : Entries String Value :=
  Directive.toParams { absolute := p.absolute, after := p.after, before := p.before }

end Position

namespace MoveBody

/-- The card id as text: whole numbers are common. -/
def cardId : Value → Value
  | .whole n => .text (toString n)
  | .bool b => .text (Value.bool b).quoted
  | v => v

/-- Check the body of a move; `kind` is what is reported of a value that is no record. -/
def check (kind : Issue.Kind) : Value → Checked MoveBody
  | .object r => do
    let position : Checked (Option Position) :=
      match Entries.getD "position_params" r .null with
      | .null => .ok none
      | v => Checked.under "position_params" (some <$> Position.check kind v)
    let (card, stage, position) ← Checked.both
      (checkRequired "card_id" ((Entries.get? "card_id" r).map cardId))
      (Checked.both (checkRequired "stage_key" (Entries.get? "stage_key" r)) position)
    pure { card, stage, position }
  | _ => issue [] kind

/-- All fields, those not given as null. -/
def toValue (b : MoveBody) : Value :=
  .object [("card_id", b.card), ("stage_key", b.stage),
    ("position_params", (b.position.map Position.toValue).getD .null)]

end MoveBody

end Kanban.Http
