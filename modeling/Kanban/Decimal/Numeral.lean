import Kanban.Decimal.Binary
import Kanban.Text.Blank
import Kanban.Text.Digit

/-!
# Kanban.Decimal.Numeral — reading numerals

A numeral may be written with the digits of any script, with blanks around it and with
single underscores between digits. `wholeOf?` reads whole numbers, `realOf?` also points,
exponents and the names of the infinite and undefined numbers.

* `joinDigits_of_plain` — a numeral without underscores is left as it is.
-/

namespace Kanban.Decimal

/-- The float closest to `digits · 10 ^ power`. -/
def closest (digits : Nat) (power : Int) : Float :=
  let top : Int := (Nat.toDigits 10 digits).length + power
  -- far below and far above all floats there is nothing to compute
  if digits = 0 ∨ top < -400 then 0.0
  else if 400 < top then 1.0 / 0.0
  else Float.ofScientific digits (power < 0) power.natAbs

/-- The float closest to a whole number, if it is not beyond all of them. -/
def ofWhole? (n : Int) : Option Float :=
  let x := closest n.natAbs 0
  if isFinite x then some (if n < 0 then -x else x) else none

namespace Numeral

/-- The longest numeral of a whole number that is read. -/
def maxDigits : Nat := 4300

/-- Different numbers are written in different digits. -/
theorem toString_inj {m n : Nat} (h : toString m = toString n) : m = n := by
  have hdigits : Nat.toDigits 10 m = Nat.toDigits 10 n := by
    rw [← Nat.toList_repr, ← Nat.toList_repr]
    exact congrArg String.toList h
  rw [← Nat.ofDigitChars_ten_toDigits (n := m), hdigits, Nat.ofDigitChars_ten_toDigits]

/-- Write digits and blanks of other scripts in ASCII; other characters have no place in a numeral. -/
def toAscii (cs : List Char) : Option (List Char) :=
  if cs.all (·.toNat < 128) then some cs
  else cs.mapM fun c =>
    if c.toNat < 127 then some c
    else if Text.isBlank c then some ' '
    else (Text.digit? c).map Text.ofDigit

/-- Take out underscores, each of which must stand between two digits. `after` tells whether the
character before is a digit. -/
def joinDigits (after : Bool) : List Char → Option (List Char)
  | [] => some []
  | '_' :: c :: rest =>
    if after && c.isDigit then (joinDigits true rest).map (c :: ·) else none
  | c :: rest =>
    if c = '_' then none else (joinDigits c.isDigit rest).map (c :: ·)

theorem joinDigits_of_plain (cs : List Char) (h : '_' ∉ cs) (after : Bool) :
    joinDigits after cs = some cs := by
  induction cs generalizing after with
  | nil => rfl
  | cons c rest ih =>
    have hc : c ≠ '_' := fun e => h (by simp [e])
    have hr : '_' ∉ rest := fun m => h (List.mem_cons_of_mem _ m)
    unfold joinDigits
    split
    · simp_all
    · rename_i heq
      exact absurd (List.cons.inj heq).1 hc
    · rename_i heq
      obtain ⟨rfl, rfl⟩ := List.cons.inj heq
      simp [hc, ih hr]

/-- A sign, and what follows it. -/
def sign : List Char → Bool × List Char
  | '-' :: rest => (true, rest)
  | '+' :: rest => (false, rest)
  | rest => (false, rest)

/-- The number that a row of digits denotes. -/
def ofDigits (ds : List Char) : Nat := ds.foldl (fun n d => 10 * n + (d.toNat - 48)) 0

/-- The digits at the front, and the rest. -/
def digits (cs : List Char) : List Char × List Char := (cs.takeWhile Char.isDigit, cs.dropWhile Char.isDigit)

/-- The exponent at the end of a numeral. -/
def exponent? : List Char → Option Int
  | [] => some 0
  | c :: rest =>
    if c = 'e' ∨ c = 'E' then
      let (negative, rest) := sign rest
      let (ds, rest) := digits rest
      if ds.isEmpty || !rest.isEmpty then none
      else
        let n : Int := ofDigits ds
        some (if negative then -n else n)
    else none

/-- The digits around the point at the front, and the rest. -/
def fraction (cs : List Char) : List Char × List Char × List Char :=
  let (front, rest) := digits cs
  match rest with
  | '.' :: rest => let (back, rest) := digits rest; (front, back, rest)
  | rest => (front, [], rest)

/-- A numeral without a sign. -/
def unsigned? (cs : List Char) : Option Float :=
  let name := cs.map Char.toLower
  if name = "inf".toList ∨ name = "infinity".toList then some (1.0 / 0.0)
  else if name = "nan".toList then some (0.0 / 0.0)
  else
    let (front, back, rest) := fraction cs
    if front.isEmpty && back.isEmpty then none
    else (exponent? rest).map fun e => closest (ofDigits (front ++ back)) (e - back.length)

/-- A numeral in ASCII without blanks and underscores. -/
def signed? (cs : List Char) : Option Float :=
  let (negative, rest) := sign cs
  (unsigned? rest).map fun x => if negative then -x else x

end Numeral

open Numeral in
/-- The float a text denotes. -/
def realOf? (s : String) : Option Float := do
  let cs ← toAscii s.toList
  let cs ← joinDigits false (Text.trimBy Text.isAsciiBlank cs)
  signed? cs

open Numeral in
/-- The whole number a text denotes. -/
def wholeOf? (s : String) : Option Int := do
  let cs ← toAscii s.toList
  let cs ← joinDigits false (Text.trimBy Text.isAsciiBlank cs)
  let (negative, rest) := sign cs
  let (ds, rest) := digits rest
  if ds.isEmpty || !rest.isEmpty || maxDigits < ds.length then none
  else
    let n : Int := ofDigits ds
    some (if negative then -n else n)

end Kanban.Decimal
