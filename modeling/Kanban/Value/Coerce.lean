import Kanban.Value
import Kanban.Decimal.Layout
import Kanban.Decimal.Numeral
import Kanban.Text.Quoted

/-!
# Kanban.Value.Coerce — reading unchecked data

Data from outside is read leniently: numbers may be spelled as text, ids may be numbers, and
what was left out may be null. What cannot be read is a `Fault`.

* `shown_text`, `toText_text` — text shows as itself, and can always be written.
* `toReal_real` — a float is read as itself.
-/

namespace Kanban

/-- Why a piece of unchecked data could not be used. -/
inductive Fault where
  /-- An entry that has to be there is missing. -/
  | missing (key : Value)
  /-- A value of a kind that cannot be used here. -/
  | wrongKind
  /-- Text that is no numeral, or a number that has no whole part. -/
  | malformed
  /-- A number beyond what can be represented. -/
  | tooLarge
  /-- Something other than a record where a record is needed. -/
  | notRecord
  deriving DecidableEq

namespace Value

mutual

/-- A value as shown inside messages. -/
def quoted : Value → String
  | .null => "None"
  | .bool b => if b then "True" else "False"
  | .whole n => toString n
  | .real x => Decimal.render .plain x
  | .text s => Text.quote s
  | .list items => "[" ++ ", ".intercalate (quotedItems items) ++ "]"
  | .object entries => "\x7b" ++ ", ".intercalate (quotedEntries entries) ++ "\x7d"

/-- The items of a list as shown inside messages. -/
def quotedItems : List Value → List String
  | [] => []
  | v :: vs => quoted v :: quotedItems vs

/-- The entries of an object as shown inside messages. -/
def quotedEntries : List (String × Value) → List String
  | [] => []
  | (k, v) :: vs => (Text.quote k ++ ": " ++ quoted v) :: quotedEntries vs

end

/-- A value as text: text as it is, anything else as shown inside messages. -/
def shown : Value → String
  | .text s => s
  | v => v.quoted

@[simp] theorem shown_text (s : String) : (Value.text s).shown = s := rfl

mutual

/-- Whether a whole number in a value has more digits than are written. -/
def overlong : Value → Bool
  | .whole n => Decimal.Numeral.maxDigits < (Nat.toDigits 10 n.natAbs).length
  | .list items => overlongItems items
  | .object entries => overlongEntries entries
  | .null | .bool _ | .real _ | .text _ => false

/-- Whether an item of a list has. -/
def overlongItems : List Value → Bool
  | [] => false
  | v :: vs => overlong v || overlongItems vs

/-- Whether an entry of an object has. -/
def overlongEntries : List (String × Value) → Bool
  | [] => false
  | (_, v) :: vs => overlong v || overlongEntries vs

end

/-- A value as text, if its whole numbers can be written. -/
def toText (v : Value) : Except Fault String :=
  if v.overlong then .error .malformed else .ok v.shown

@[simp] theorem toText_text (s : String) : (Value.text s).toText = .ok s := rfl

theorem toText_of_not_overlong {v : Value} (h : v.overlong = false) : v.toText = .ok v.shown := by
  rw [toText, h, if_neg Bool.false_ne_true]

/-- A value that can be written is the text that it shows. -/
theorem shown_of_toText {v : Value} {s : String} (h : v.toText = .ok s) : v.shown = s := by
  unfold toText at h
  split at h
  · cases h
  · exact Except.ok.inj h

/-- The whole number a float is cut to. -/
def cut (x : Float) : Except Fault Int :=
  match Decimal.read x with
  | .finite b => .ok b.whole
  | .infinite _ => .error .tooLarge
  | .undefined => .error .malformed

/-- The value as a float. -/
def toReal : Value → Except Fault Float
  | .real x => .ok x
  | .bool b => .ok (if b then 1.0 else 0.0)
  | .whole n => match Decimal.ofWhole? n with
    | some x => .ok x
    | none => .error .tooLarge
  | .text s => match Decimal.realOf? s with
    | some x => .ok x
    | none => .error .malformed
  | .null | .list _ | .object _ => .error .wrongKind

@[simp] theorem toReal_real (x : Float) : (Value.real x).toReal = .ok x := rfl

/-- The value as a whole number. -/
def toWhole : Value → Except Fault Int
  | .whole n => .ok n
  | .bool b => .ok (if b then 1 else 0)
  | .real x => cut x
  | .text s => match Decimal.wholeOf? s with
    | some n => .ok n
    | none => .error .malformed
  | .null | .list _ | .object _ => .error .wrongKind

/-- The entries of a record. -/
def record : Value → Except Fault (Entries String Value)
  | .object entries => .ok entries
  | _ => .error .notRecord

/-- The items of something that can be gone through: objects yield their keys, text its characters. -/
def items : Value → Except Fault (List Value)
  | .list vs => .ok vs
  | .object entries => .ok (entries.map fun e => .text e.1)
  | .text s => .ok (s.toList.map fun c => .text (String.singleton c))
  | _ => .error .wrongKind

end Value

namespace Entries

/-- The entry under a key, or null. -/
def getD (k : String) (m : Entries String Value) (default : Value) : Value :=
  (get? k m).getD default

/-- The entry under a key that has to be there. -/
def need (k : String) (m : Entries String Value) : Except Fault Value :=
  match get? k m with
  | some v => .ok v
  | none => .error (.missing (.text k))

end Entries

end Kanban
