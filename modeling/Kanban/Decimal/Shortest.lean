import Kanban.Decimal.Binary

/-!
# Kanban.Decimal.Shortest — the fewest digits that read back

A float is written with the fewest significant digits that lie closer to it than to any
other float; of several such decimals the closest one is taken. The reals that round to a
float form an interval, closed if the mantissa is even; on the grid of decimals with `n`
digits only the two neighbours of the float need to be tried.

* `mem_of_onGrid` — what is found on a grid lies in the interval.
-/

namespace Kanban.Decimal

/-- The decimal `digits · 10 ^ power`. -/
structure Scaled where
  digits : Nat
  power : Int
  deriving Repr, DecidableEq

namespace Shortest

/-- The numbers that round to a float, as three numerators over one denominator. -/
structure Interval where
  low : Nat
  mid : Nat
  high : Nat
  den : Nat
  closed : Bool

/-- The interval around a magnitude other than zero. Below a power of two the floats are twice as
close, unless they are already as close as floats can be. -/
def interval (b : Binary) : Interval :=
  let (num, den) := ({ b with mantissa := 4 * b.mantissa } : Binary).ratio
  let (unit, _) := ({ b with mantissa := 1 } : Binary).ratio
  let below := if b.mantissa = Nat.pow 2 52 ∧ b.exponent ≠ -1074 then unit else 2 * unit
  ⟨num - below, num, num + 2 * unit, 4 * den, b.mantissa % 2 == 0⟩

/-- Whether `num / den` lies in the interval. -/
def Interval.mem (i : Interval) (num den : Nat) : Bool :=
  let a := num * i.den
  if i.closed then i.low * den ≤ a && a ≤ i.high * den
  else i.low * den < a && a < i.high * den

/-- Ten to a power as a numerator over a denominator. -/
def tenTo : Int → Nat × Nat
  | .ofNat k => (Nat.pow 10 k, 1)
  | .negSucc k => (1, Nat.pow 10 (k + 1))

/-- Whether ten to a power is at most `num / den`. -/
def reaches (num den : Nat) (power : Int) : Bool :=
  let (p, r) := tenTo power
  p * den ≤ num * r

/-- Raise a power of ten that is at most `num / den`, at most `fuel` times, as far as it goes. -/
def climb (num den : Nat) : Nat → Int → Int
  | 0, e => e
  | fuel + 1, e => if reaches num den (e + 1) then climb num den fuel (e + 1) else e

/-- The exponent of the leading digit of `num / den`, which is not zero. The number of bits gives
it up to a few, since 1233 / 4096 is close to the logarithm of two. -/
def leading (num den : Nat) : Int :=
  climb num den 4 (((num.log2 : Int) - den.log2 - 1) * 1233 / 4096 - 1)

/-- The decimal with the given power closest to the middle of the interval, if it lies in it. -/
def onGrid (i : Interval) (power : Int) : Option Scaled :=
  let (p, r) := tenTo power
  let down := i.mid * r / (i.den * p)
  let rest := i.mid * r - down * (i.den * p)
  let lower := i.mem (down * p) r
  let upper := i.mem ((down + 1) * p) r
  -- of two in the interval the closer one counts, and in a tie the even one
  if lower && (!upper || 2 * rest < i.den * p ||
      (2 * rest == i.den * p && down % 2 == 0)) then some ⟨down, power⟩
  else if upper then some ⟨down + 1, power⟩
  else none

theorem mem_of_onGrid {i : Interval} {power : Int} {s : Scaled} (h : onGrid i power = some s) :
    i.mem (s.digits * (tenTo power).1) (tenTo power).2 = true ∧ s.power = power := by
  unfold onGrid at h
  grind

/-- Drop the zeros at the end of the digits. -/
def strip : Nat → Scaled → Scaled
  | 0, s => s
  | fuel + 1, s =>
    if s.digits ≠ 0 ∧ s.digits % 10 = 0 then strip fuel ⟨s.digits / 10, s.power + 1⟩ else s

end Shortest

/-- The shortest decimal of a magnitude. -/
def shortest (b : Binary) : Scaled :=
  if b.mantissa = 0 then ⟨0, 0⟩
  else
    let i := Shortest.interval b
    let top := Shortest.leading i.mid i.den
    -- seventeen digits tell any two floats apart
    match (List.range 17).findSome? fun n : Nat => Shortest.onGrid i (top - n) with
    | some s => Shortest.strip 20 s
    | none => ⟨0, 0⟩

end Kanban.Decimal
