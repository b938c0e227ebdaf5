import Kanban.Decimal.Shortest

/-!
# Kanban.Decimal.Layout — floats as text

The shortest digits are laid out in full while the number is neither huge nor tiny, with a
point and at least one digit after it; beyond that, in scientific form with a sign and at
least two digits in the exponent. Infinite and undefined floats have names, and the names
differ between what people read and what files hold.
-/

namespace Kanban.Decimal

/-- How floats are written. -/
structure Layout where
  /-- The least exponent of the leading digit that is written in full. -/
  least : Int := -4
  /-- The first exponent of the leading digit that is not written in full. -/
  limit : Int := 16
  undefined : String
  infinite : String

/-- The layout of messages and listings. -/
def Layout.plain : Layout := { undefined := "nan", infinite := "inf" }

/-- The layout of files. -/
def Layout.file : Layout := { undefined := "NaN", infinite := "Infinity" }

namespace Layout

/-- At least two digits of an exponent. -/
def exponentDigits (n : Nat) : String :=
  if n < 10 then "0" ++ toString n else toString n

/-- The text of `0.digits · 10 ^ (point)`, given the digits of a shortest decimal. -/
def magnitude (l : Layout) (s : Scaled) : String :=
  let digits := Nat.toDigits 10 s.digits
  let top : Int := s.power + (digits.length - 1 : Nat)
  if s.digits ≠ 0 ∧ (top < l.least ∨ l.limit ≤ top) then
    let mantissa := match digits with
      | d :: e :: rest => String.ofList (d :: '.' :: e :: rest)
      | ds => String.ofList ds
    mantissa ++ (if top < 0 then "e-" else "e+") ++ exponentDigits top.natAbs
  else if 0 ≤ s.power then
    String.ofList (digits ++ List.replicate s.power.toNat '0') ++ ".0"
  else
    let places := s.power.natAbs
    let padded := List.replicate (places + 1 - digits.length) '0' ++ digits
    String.ofList (padded.take (padded.length - places) ++ '.' ::
      padded.drop (padded.length - places))

end Layout

/-- A float as text. -/
def render (l : Layout) (x : Float) : String :=
  match read x with
  | .undefined => l.undefined
  | .infinite negative => (if negative then "-" else "") ++ l.infinite
  | .finite b => (if b.negative then "-" else "") ++ l.magnitude (shortest b)

end Kanban.Decimal
