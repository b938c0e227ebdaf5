/-!
# Kanban.Decimal.Binary — the number a float stands for

A finite float is a whole number of powers of two. Everything that is exact about floats —
their shortest text, a rounding to fixed places, the whole part — is computed on this form.
-/

namespace Kanban.Decimal

/-- The number `mantissa · 2 ^ exponent`, below zero if `negative`. -/
structure Binary where
  negative : Bool
  mantissa : Nat
  exponent : Int
  deriving Repr, DecidableEq

/-- What a float stands for. -/
inductive Reading where
  | finite (b : Binary)
  | infinite (negative : Bool)
  | undefined
  deriving Repr, DecidableEq

/-- Read the bits of a float. -/
def read (x : Float) : Reading :=
  let bits : Nat := x.toBits.toNat
  let negative := bits / Nat.pow 2 63 == 1
  let e : Nat := bits / Nat.pow 2 52 % Nat.pow 2 11
  let m : Nat := bits % Nat.pow 2 52
  -- the highest exponent is for what is no number, the lowest for numbers without a leading one
  if e = 2047 then
    if m = 0 then .infinite negative else .undefined
  else if e = 0 then .finite ⟨negative, m, -1074⟩
  else .finite ⟨negative, Nat.pow 2 52 + m, (e : Int) - 1075⟩

/-- Whether a float is a number: neither infinite nor undefined. -/
def isFinite (x : Float) : Bool :=
  match read x with
  | .finite _ => true
  | _ => false

namespace Binary

/-- The magnitude as a numerator over a denominator. -/
def ratio (b : Binary) : Nat × Nat :=
  match b.exponent with
  | .ofNat k => (b.mantissa * Nat.pow 2 k, 1)
  | .negSucc k => (b.mantissa, Nat.pow 2 (k + 1))

/-- The whole part, cut toward zero. -/
def whole (b : Binary) : Int :=
  let n := b.ratio.1 / b.ratio.2
  if b.negative then -n else n

end Binary

/-- A quotient rounded to the nearest whole number, a tie to the even one. -/
def roundDiv (num den : Nat) : Nat :=
  let q := num / den
  let r := num % den
  if 2 * r < den then q
  else if den < 2 * r then q + 1
  else if q % 2 = 0 then q
  else q + 1

end Kanban.Decimal
