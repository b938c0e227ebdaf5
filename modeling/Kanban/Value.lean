import Kanban.Entries

/-!
# Kanban.Value — data as it comes from outside

Requests, snapshot files, broadcast events and server answers arrive as values whose shape
nobody has checked yet. `Value` is that data: the values of JSON, with whole numbers of any
size kept apart from floating-point numbers and object entries kept in order.

* `same_eq_true_iff` — the equality test of values decides equality.
-/

namespace Kanban

/-- Unchecked data from outside. -/
inductive Value where
  | null
  | bool (b : Bool)
  | whole (n : Int)
  | real (x : Float)
  | text (s : String)
  | list (items : List Value)
  | object (entries : List (String × Value))
  deriving Inhabited

namespace Value

mutual

/-- Whether two values are the same. Numbers of different kinds never are: 1, 1.0 and true are three
values, though as numbers they are equal. -/
def same : Value → Value → Bool
  | .null, .null => true
  | .bool a, .bool b => a == b
  | .whole a, .whole b => a == b
  | .real a, .real b => decide (a = b)
  | .text a, .text b => a == b
  | .list a, .list b => sameItems a b
  | .object a, .object b => sameEntries a b
  | _, _ => false

/-- Whether two lists hold the same values. -/
def sameItems : List Value → List Value → Bool
  | [], [] => true
  | a :: as, b :: bs => same a b && sameItems as bs
  | _, _ => false

/-- Whether two objects have the same entries in the same order. -/
def sameEntries : List (String × Value) → List (String × Value) → Bool
  | [], [] => true
  | (k, a) :: as, (l, b) :: bs => k == l && same a b && sameEntries as bs
  | _, _ => false

end

mutual

theorem same_eq_true_iff : ∀ a b : Value, same a b = true ↔ a = b
  | .null, b => by cases b <;> simp [same]
  | .bool _, b => by cases b <;> simp [same]
  | .whole _, b => by cases b <;> simp [same]
  | .real _, b => by cases b <;> simp [same]
  | .text _, b => by cases b <;> simp [same]
  | .list as, b => by
    cases b with
    | list bs => simp [same, sameItems_eq_true_iff as bs]
    | _ => simp [same]
  | .object as, b => by
    cases b with
    | object bs => simp [same, sameEntries_eq_true_iff as bs]
    | _ => simp [same]

theorem sameItems_eq_true_iff : ∀ as bs : List Value, sameItems as bs = true ↔ as = bs
  | [], bs => by cases bs <;> simp [sameItems]
  | a :: as, bs => by
    cases bs with
    | nil => simp [sameItems]
    | cons b bs => simp [sameItems, same_eq_true_iff a b, sameItems_eq_true_iff as bs]

theorem sameEntries_eq_true_iff :
    ∀ as bs : List (String × Value), sameEntries as bs = true ↔ as = bs
  | [], bs => by cases bs <;> simp [sameEntries]
  | (k, a) :: as, bs => by
    cases bs with
    | nil => simp [sameEntries]
    | cons b bs =>
      obtain ⟨l, b⟩ := b
      simp [sameEntries, same_eq_true_iff a b, sameEntries_eq_true_iff as bs, and_assoc]

end

instance : DecidableEq Value := fun a b => decidable_of_iff _ (same_eq_true_iff a b)

/-- Whether a value counts as given: null, false, zero and everything empty count as left out. -/
def given : Value → Bool
  | .null => false
  | .bool b => b
  | .whole n => n != 0
  | .real x => !(x == 0.0)
  | .text s => s != ""
  | .list items => !items.isEmpty
  | .object entries => !entries.isEmpty

/-- The value, if it counts as given. -/
def given? (v : Value) : Option Value := if v.given then some v else none

/-- Whether a value can name something: collections cannot be keys. -/
def isName : Value → Bool
  | .list _ | .object _ => false
  | _ => true

theorem isName_text (s : String) : (Value.text s).isName = true := rfl

/-- The value of an optional piece of text. -/
def ofText? : Option String → Value
  | none => .null
  | some s => .text s

end Value

/-- A board key or stage key. Keys are text as a rule, but nothing checks them on the way in. Two
keys are one only if they are the same value; a table that takes 1, 1.0 and true for one key would
differ, but for keys that are no text only. -/
abbrev Key := Value

instance : Coe String Value := ⟨.text⟩

end Kanban
