import Kanban.Decimal.Binary

/-!
# Kanban.Decimal.Places — floats with a fixed number of places

The exact value is rounded to the given number of places after the point, a tie going to
the even neighbour, and written in full.
-/

namespace Kanban.Decimal

/-- A magnitude with the given number of places. -/
def Binary.places (n : Nat) (b : Binary) : String :=
  let (num, den) := b.ratio
  let digits := Nat.toDigits 10 (roundDiv (num * Nat.pow 10 n) den)
  let padded := List.replicate (n + 1 - digits.length) '0' ++ digits
  String.ofList (padded.take (padded.length - n) ++ '.' :: padded.drop (padded.length - n))

/-- A float with the given number of places. -/
def renderPlaces (n : Nat) (x : Float) : String :=
  match read x with
  | .undefined => "nan"
  | .infinite negative => if negative then "-inf" else "inf"
  | .finite b => (if b.negative then "-" else "") ++ b.places n

end Kanban.Decimal
