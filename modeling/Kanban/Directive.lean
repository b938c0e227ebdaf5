import Kanban.Card

/-!
# Kanban.Directive — where a card is to land

A directive names an exact position, or one or two neighbours, or nothing at all, which means
the end of the stage. Neighbours that are not among the cards of the stage count as not
named. `placement` says what a directive comes to on given cards; `insertIndex` guesses the
place in the list without computing a position.

* `insertIndex_le` — the guessed place is a place of the list.
-/

namespace Kanban

/-- Where a card is to land in its target stage. -/
structure Directive where
  absolute : Option Float := none
  after : Option String := none
  before : Option String := none
  deriving DecidableEq

/-- What a directive comes to, on cards with positions of some type. -/
inductive Placement (π : Type) where
  | exactly (x : Float)
  | between (low high : π)
  | after (x : π)
  | before (x : π)
  | last
  deriving DecidableEq

namespace Directive

/-- Whether the directive names nothing. -/
def isAppend (d : Directive) : Bool := d.absolute.isNone && d.after.isNone && d.before.isNone

/-- The id that a field names, if it names one. -/
def idOf : Value → Except Fault (Option String)
  | .null => .ok none
  | v => some <$> v.toText

/-- A directive from its fields as they came. -/
def ofFields (absolute after before : Value) : Except Fault Directive := do
  let absolute ← match absolute with
    | .null => pure none
    | x => some <$> x.toReal
  let after ← idOf after
  let before ← idOf before
  pure { absolute, after, before }

/-- Whether a position parameter was left blank. -/
def isBlank : Value → Bool
  | .null => true
  | .text s => s == ""
  | _ => false

/-- A directive from the parameters of a request. The exact position has two spellings, and empty
values count as left out. -/
def ofParams (v : Value) : Except Fault Directive :=
  if !v.given then .ok {}
  else do
    let r ← v.record
    -- the second spelling counts where the first is left blank
    let first := r.getD "absolute" .null
    let absolute := if isBlank first then r.getD "absolute_position" .null else first
    ofFields (if isBlank absolute then .null else absolute)
      (((r.getD "after_id" .null).given?).getD .null)
      (((r.getD "before_id" .null).given?).getD .null)

/-- A directive as parameters of a request. -/
def toParams (d : Directive) : Entries String Value :=
  (d.absolute.map fun x => ("absolute", Value.real x)).toList ++
    (d.after.map fun s => ("after_id", Value.text s)).toList ++
    (d.before.map fun s => ("before_id", Value.text s)).toList

variable {π : Type}

/-- The card with an id, if there is one. -/
def neighbour (cards : List (CardWith π)) (id : Option String) : Option (CardWith π) :=
  id.bind fun i => cards.find? (·.id == i)

/-- What the directive comes to on the cards of the target stage. -/
def placement (cards : List (CardWith π)) (d : Directive) : Placement π :=
  match d.absolute with
  | some x => .exactly x
  | none =>
    match neighbour cards d.after, neighbour cards d.before with
    | some a, some b => .between a.position b.position
    | some a, none => .after a.position
    | none, some b => .before b.position
    | none, none => .last

/-- The place of an id in the list. -/
def indexOf (cards : List (CardWith π)) (id : Option String) : Option Nat :=
  id.bind fun i => cards.findIdx? (·.id == i)

/-- The place in the list that the directive points at, where `above` compares with the exact
position. -/
def insertIndex (above : π → Float → Bool) (cards : List (CardWith π)) (d : Directive) : Nat :=
  match indexOf cards d.after with
  | some i => i + 1
  | none =>
    match indexOf cards d.before with
    | some i => i
    | none =>
      match d.absolute with
      | some x => (cards.findIdx? fun c => above c.position x).getD cards.length
      | none => cards.length

theorem lt_of_indexOf {cards : List (CardWith π)} {id : Option String} {i : Nat}
    (h : indexOf cards id = some i) : i < cards.length := by
  cases id with
  | none => simp [indexOf] at h
  | some k =>
    simp only [indexOf, Option.bind_some] at h
    obtain ⟨hi, _⟩ := List.findIdx?_eq_some_iff_getElem.1 h
    exact hi

/-- The guessed place is a place of the list. -/
theorem insertIndex_le (above : π → Float → Bool) (cards : List (CardWith π)) (d : Directive) :
    insertIndex above cards d ≤ cards.length := by
  unfold insertIndex
  split
  · rename_i h
    exact lt_of_indexOf h
  · split
    · rename_i h
      exact Nat.le_of_lt (lt_of_indexOf h)
    · split
      · rename_i x _
        cases h : cards.findIdx? fun c => above c.position x with
        | none => simp
        | some i =>
          obtain ⟨hi, _⟩ := List.findIdx?_eq_some_iff_getElem.1 h
          simpa using Nat.le_of_lt hi
      · exact Nat.le_refl _

end Directive

end Kanban
