import Kanban.Decimal.Shortest
import Kanban.Proofs.Decimal.Closest

/-!
# Kanban.Proofs.Decimal.Shortest — the shortest decimal reads back

The search for the shortest decimal ends at a decimal in the interval of the float, since the
decimals with seventeen digits are closer to each other than the interval is wide. So reading the
decimal gives the float.

* `mem_iff` — what the search takes for the interval is the interval of the float.
* `reaches_leading` — the exponent that the search starts from is not too high.
* `exists_onGrid` — seventeen digits are enough.
* `signed_closest` — the shortest decimal of a float is read as that float.
-/

namespace Kanban.Decimal

open Float.Model.UnpackedFloat Rounding

theorem ten_zpow_pos (k : Int) : (0 : ℚ) < 10 ^ k := zpow_pos (by norm_num) k

namespace Shortest

variable {b : Binary} {num den : Nat} {power : Int}

/-! ## The interval -/

/-- Three numerators over a denominator are the ends and the middle of the interval of a float. -/
structure Spans (i : Interval) (b : Binary) : Prop where
  pos : 0 < i.den
  small : i.den.log2 ≤ 1076
  low : (i.low : ℚ) = lowest b.mantissa b.exponent * i.den
  mid : (i.mid : ℚ) = b.mantissa * 2 ^ b.exponent * i.den
  high : (i.high : ℚ) = highest b.mantissa b.exponent * i.den
  closed : i.closed = true ↔ b.mantissa % 2 = 0

/-- Two to a power is a whole number of units over a power of two, and so are its multiples. -/
theorem exists_unit {e : Int} (he : -1074 ≤ e) : ∃ unit j : Nat, j ≤ 1074 ∧
    (unit : ℚ) = 2 ^ e * 2 ^ j ∧
    ∀ negative m, (⟨negative, m, e⟩ : Binary).ratio = (m * unit, 2 ^ j) := by
  cases e with
  | ofNat k =>
    refine ⟨2 ^ k, 0, Nat.zero_le _, ?_, fun negative m => rfl⟩
    have hexp : (2 : ℚ) ^ (Int.ofNat k) = 2 ^ k := zpow_natCast 2 k
    rw [hexp, pow_zero, mul_one]
    push_cast
    rfl
  | negSucc k =>
    refine ⟨1, k + 1, by omega, ?_, fun negative m => ?_⟩
    · have hexp : (2 : ℚ) ^ (Int.negSucc k) = (2 ^ (k + 1))⁻¹ := zpow_negSucc 2 k
      rw [hexp, Nat.cast_one, inv_mul_cancel₀ (by positivity)]
    · rw [Nat.mul_one]
      rfl

theorem spans_interval (hc : Canonical b.mantissa b.exponent) : Spans (interval b) b := by
  obtain ⟨negative, m, e⟩ := b
  have hpos : 0 < m := hc.pos
  obtain ⟨unit, j, hj, hunit, hratio⟩ := exists_unit hc.least
  have hbelow : 2 * unit ≤ 4 * m * unit := Nat.mul_le_mul_right _ (by omega)
  have hinterval : interval ⟨negative, m, e⟩ =
      ⟨4 * m * unit - (if m = 2 ^ 52 ∧ e ≠ -1074 then unit else 2 * unit), 4 * m * unit,
        4 * m * unit + 2 * unit, 4 * 2 ^ j, m % 2 == 0⟩ := by
    simp only [interval, hratio, Nat.one_mul, Nat.pow_eq]
  rw [hinterval]
  constructor
  case pos => exact Nat.mul_pos (by omega) (Nat.two_pow_pos j)
  case small =>
    have hden : 4 * 2 ^ j = 2 ^ (j + 2) := by ring
    dsimp only
    rw [hden, Nat.log2_two_pow]
    omega
  case low =>
    unfold lowest
    dsimp only
    -- below a power of two the floats are twice as close
    split
    · rw [Nat.cast_sub (by omega)]
      push_cast
      rw [hunit]
      ring
    · rw [Nat.cast_sub hbelow]
      push_cast
      rw [hunit]
      ring
  case mid =>
    push_cast
    rw [hunit]
    ring
  case high =>
    unfold highest
    push_cast
    rw [hunit]
    ring
  case closed => simp

variable {i : Interval}

/-- What the search takes for the interval is the interval of the float. -/
theorem mem_iff (hi : Spans i b) (hden : 0 < den) :
    i.mem num den = true ↔ Rounds b.mantissa b.exponent (num / den) := by
  have hd : (0 : ℚ) < den := by exact_mod_cast hden
  have hid : (0 : ℚ) < i.den := by exact_mod_cast hi.pos
  have hlow : (i.low : ℚ) / i.den = lowest b.mantissa b.exponent := by
    rw [hi.low, mul_div_cancel_right₀ _ hid.ne']
  have hhigh : (i.high : ℚ) / i.den = highest b.mantissa b.exponent := by
    rw [hi.high, mul_div_cancel_right₀ _ hid.ne']
  have hlowle : i.low * den ≤ num * i.den ↔ lowest b.mantissa b.exponent ≤ num / den := by
    rw [← hlow, div_le_div_iff₀ hid hd]
    exact_mod_cast Iff.rfl
  have hhighle : num * i.den ≤ i.high * den ↔ num / den ≤ highest b.mantissa b.exponent := by
    rw [← hhigh, div_le_div_iff₀ hd hid]
    exact_mod_cast Iff.rfl
  have hlowlt : i.low * den < num * i.den ↔ lowest b.mantissa b.exponent < num / den := by
    rw [← hlow, div_lt_div_iff₀ hid hd]
    exact_mod_cast Iff.rfl
  have hhighlt : num * i.den < i.high * den ↔ num / den < highest b.mantissa b.exponent := by
    rw [← hhigh, div_lt_div_iff₀ hd hid]
    exact_mod_cast Iff.rfl
  unfold Interval.mem
  -- The ends of the interval round to an even mantissa alone.
  by_cases hclosed : i.closed = true
  · have heven := hi.closed.1 hclosed
    simp only [hclosed, if_true, Bool.and_eq_true, decide_eq_true_eq, hlowle, hhighle]
    exact ⟨fun ⟨hl, hh⟩ => ⟨hl, hh, fun hodd => by omega⟩, fun hr => ⟨hr.low, hr.high⟩⟩
  · have hodd : b.mantissa % 2 = 1 := by
      have hne : b.mantissa % 2 ≠ 0 := fun h => hclosed (hi.closed.2 h)
      omega
    rw [if_neg hclosed]
    simp only [Bool.and_eq_true, decide_eq_true_eq, hlowlt, hhighlt]
    exact ⟨fun ⟨hl, hh⟩ => ⟨hl.le, hh.le, fun _ => ⟨hl, hh⟩⟩, fun hr => hr.inside hodd⟩

/-! ## The leading digit -/

theorem tenTo_pos (power : Int) : 0 < (tenTo power).1 ∧ 0 < (tenTo power).2 := by
  cases power with
  | ofNat k => exact ⟨Nat.pow_pos (by omega), Nat.one_pos⟩
  | negSucc k => exact ⟨Nat.one_pos, Nat.pow_pos (by omega)⟩

theorem tenTo_value (power : Int) : ((tenTo power).1 : ℚ) / (tenTo power).2 = 10 ^ power := by
  cases power with
  | ofNat k =>
    simp [tenTo]
  | negSucc k =>
    have hexp : (10 : ℚ) ^ (Int.negSucc k) = (10 ^ (k + 1))⁻¹ := zpow_negSucc 10 k
    simp [tenTo, hexp]

theorem reaches_iff (hden : 0 < den) :
    reaches num den power = true ↔ (10 : ℚ) ^ power ≤ num / den := by
  have hd : (0 : ℚ) < den := by exact_mod_cast hden
  have hr : (0 : ℚ) < (tenTo power).2 := by exact_mod_cast (tenTo_pos power).2
  rw [← tenTo_value, div_le_div_iff₀ hr hd]
  unfold reaches
  simp only [decide_eq_true_eq]
  exact_mod_cast Iff.rfl

theorem reaches_climb {fuel : Nat} (h : reaches num den power = true) :
    reaches num den (climb num den fuel power) = true := by
  induction fuel generalizing power with
  | zero => exact h
  | succ fuel ih =>
    unfold climb
    split
    · rename_i hnext
      exact ih hnext
    · exact h

/-- 1233 / 4096 is so close to the logarithm of two that it is off by less than one for the powers of
two that are denominators of floats. -/
theorem ten_le_two {l e : Int} (hl : -4096 ≤ l) (he : 4096 * e ≤ 1233 * l - 4096) :
    (10 : ℚ) ^ e ≤ 2 ^ l := by
  have hpow (a : ℚ) (k : Int) : (a ^ k) ^ 4096 = a ^ (4096 * k) := by
    rw [← zpow_natCast, ← zpow_mul, mul_comm]
    rfl
  refine (pow_le_pow_iff_left₀ (ten_zpow_pos e).le (two_zpow_pos l).le (by omega : 4096 ≠ 0)).1 ?_
  rw [hpow, hpow]
  have hbig : (10 : ℚ) ^ (4096 * e) ≤ 10 ^ (1233 * l - 4096) :=
    zpow_le_zpow_right₀ (by norm_num) he
  refine hbig.trans ?_
  -- The decimal logarithm of two lies between 1233 / 4096 and 1234 / 4096;
  -- which bound is needed depends on the sign.
  rcases Int.le_total 0 l with hnonneg | hneg
  · obtain ⟨k, rfl⟩ := Int.eq_ofNat_of_zero_le hnonneg
    have hbase : (10 : ℚ) ^ 1233 ≤ 2 ^ 4096 := by
      have hnat : 10 ^ 1233 ≤ 2 ^ 4096 := by decide +kernel
      exact_mod_cast hnat
    calc (10 : ℚ) ^ (1233 * (k : Int) - 4096) ≤ 10 ^ (1233 * (k : Int)) :=
          zpow_le_zpow_right₀ (by norm_num) (by omega)
      _ = (10 ^ 1233) ^ k := by rw [← pow_mul, ← zpow_natCast]; rfl
      _ ≤ (2 ^ 4096) ^ k := pow_le_pow_left₀ (by positivity) hbase k
      _ = 2 ^ (4096 * (k : Int)) := by rw [← pow_mul, ← zpow_natCast]; rfl
  · obtain ⟨k, rfl⟩ := Int.exists_eq_neg_ofNat hneg
    have hbase : (2 : ℚ) ^ 4096 ≤ 10 ^ 1234 := by
      have hnat : 2 ^ 4096 ≤ 10 ^ 1234 := by decide +kernel
      exact_mod_cast hnat
    calc (10 : ℚ) ^ (1233 * -(k : Int) - 4096) ≤ 10 ^ (-((1234 * k : Nat) : Int)) :=
          zpow_le_zpow_right₀ (by norm_num) (by push_cast; omega)
      _ = ((10 ^ 1234) ^ k)⁻¹ := by rw [zpow_neg, zpow_natCast, pow_mul]
      _ ≤ ((2 ^ 4096) ^ k)⁻¹ :=
          inv_anti₀ (by positivity) (pow_le_pow_left₀ (by positivity) hbase k)
      _ = 2 ^ (4096 * -(k : Int)) := by
          rw [← pow_mul, ← zpow_natCast, ← zpow_neg]
          push_cast
          ring_nf

/-- The exponent that the search starts from is not too high. -/
theorem reaches_leading (hnum : 0 < num) (hden : 0 < den) (hsmall : den.log2 ≤ 1076) :
    (10 : ℚ) ^ leading num den ≤ num / den := by
  have hd : (0 : ℚ) < den := by exact_mod_cast hden
  refine (reaches_iff hden).1 (reaches_climb ((reaches_iff hden).2 ?_))
  generalize hl : (num.log2 : Int) - den.log2 - 1 = l
  have hnumlog : (2 : ℚ) ^ num.log2 ≤ num := by exact_mod_cast Nat.log2_self_le hnum.ne'
  have hdenlog : (den : ℚ) ≤ 2 ^ (den.log2 + 1) := by
    exact_mod_cast (Nat.lt_log2_self (n := den)).le
  refine (ten_le_two (l := l) (by omega) (by omega)).trans ?_
  rw [le_div_iff₀ hd]
  calc (2 : ℚ) ^ l * den ≤ 2 ^ l * 2 ^ (den.log2 + 1) :=
        mul_le_mul_of_nonneg_left hdenlog (two_zpow_pos l).le
    _ = 2 ^ num.log2 := by
        rw [← zpow_natCast, ← zpow_natCast, ← zpow_add₀ (by norm_num : (2 : ℚ) ≠ 0)]
        congr 1
        push_cast
        omega
    _ ≤ num := hnumlog

/-! ## The grids -/

theorem onGrid_isSome (h : ∀ d : Nat,
    d * (tenTo power).1 * i.den ≤ i.mid * (tenTo power).2 →
    i.mid * (tenTo power).2 < (d + 1) * (tenTo power).1 * i.den →
    i.mem (d * (tenTo power).1) (tenTo power).2 = true ∨
      i.mem ((d + 1) * (tenTo power).1) (tenTo power).2 = true) (hi : 0 < i.den) :
    (onGrid i power).isSome = true := by
  obtain ⟨hp, hr⟩ := tenTo_pos power
  have hprod : 0 < i.den * (tenTo power).1 := Nat.mul_pos hi hp
  have hdown : i.mid * (tenTo power).2 / (i.den * (tenTo power).1) * (tenTo power).1 * i.den ≤
      i.mid * (tenTo power).2 := by
    rw [Nat.mul_assoc, Nat.mul_comm (tenTo power).1]
    exact Nat.div_mul_le_self ..
  have hup : i.mid * (tenTo power).2 <
      (i.mid * (tenTo power).2 / (i.den * (tenTo power).1) + 1) * (tenTo power).1 * i.den := by
    rw [Nat.mul_assoc, Nat.mul_comm (tenTo power).1]
    exact Nat.lt_mul_of_div_lt (Nat.lt_succ_self _) hprod
  have hmem := h _ hdown hup
  unfold onGrid
  dsimp only
  split
  · rfl
  · split
    · rfl
    · rename_i hlower hupper
      rcases hmem with hmem | hmem
      · simp [hmem, hupper] at hlower
      · exact absurd hmem hupper

/-- Seventeen digits are enough. -/
theorem exists_onGrid (hc : Canonical b.mantissa b.exponent) (hi : Spans i b) {top : Int}
    (htop : (10 : ℚ) ^ top ≤ b.mantissa * 2 ^ b.exponent) :
    (onGrid i (top - 16)).isSome = true := by
  have hp := two_zpow_pos b.exponent
  have hm : (b.mantissa : ℚ) + 1 ≤ 2 ^ 53 := by exact_mod_cast hc.lt
  have hid : (0 : ℚ) < i.den := by exact_mod_cast hi.pos
  obtain ⟨hten, hone⟩ := tenTo_pos (top - 16)
  have hr : (0 : ℚ) < (tenTo (top - 16)).2 := by exact_mod_cast hone
  -- the step of the grid, in units of the float
  have hstep : (10 : ℚ) ^ (top - 16) * 10 ^ 16 ≤ b.mantissa * 2 ^ b.exponent := by
    have hsplit : (10 : ℚ) ^ (top - 16) * 10 ^ 16 = 10 ^ top := by
      rw [← zpow_natCast, ← zpow_add₀ (by norm_num : (10 : ℚ) ≠ 0)]
      congr 1
      push_cast
      omega
    rw [hsplit]
    exact htop
  have hvalue (d : Nat) : ((d * (tenTo (top - 16)).1 : Nat) : ℚ) / (tenTo (top - 16)).2 =
      d * 10 ^ (top - 16) := by
    rw [Nat.cast_mul, mul_div_assoc, tenTo_value]
  have hmid : (i.mid : ℚ) / i.den = b.mantissa * 2 ^ b.exponent := by
    rw [hi.mid, mul_div_cancel_right₀ _ hid.ne']
  refine onGrid_isSome (fun d hdown hup => ?_) hi.pos
  rw [mem_iff hi hone, mem_iff hi hone, hvalue, hvalue]
  have hbelow : d * (10 : ℚ) ^ (top - 16) ≤ b.mantissa * 2 ^ b.exponent := by
    rw [← hvalue, ← hmid, div_le_div_iff₀ hr hid]
    exact_mod_cast hdown
  have habove : b.mantissa * 2 ^ b.exponent < ((d + 1 : Nat) : ℚ) * 10 ^ (top - 16) := by
    rw [← hvalue, ← hmid, div_lt_div_iff₀ hid hr]
    exact_mod_cast hup
  generalize (10 : ℚ) ^ (top - 16) = step at *
  push_cast at habove ⊢
  -- the upper neighbour lies in the interval, unless it is more than half a unit away
  by_cases hfar : (d + 1) * step < highest b.mantissa b.exponent
  · have hlow : lowest b.mantissa b.exponent < (d + 1) * step := by
      refine lt_of_le_of_lt ?_ habove
      exact (rounds_self b.mantissa b.exponent).low
    exact .inr ⟨hlow.le, hfar.le, fun _ => ⟨hlow, hfar⟩⟩
  · unfold highest at hfar
    rw [not_lt] at hfar
    have hhigh : d * step < highest b.mantissa b.exponent := by
      unfold highest
      nlinarith
    have hlow : lowest b.mantissa b.exponent < d * step := by
      unfold lowest
      split
      · rename_i h
        rw [h.1] at hstep hfar ⊢
        push_cast at hstep hfar ⊢
        nlinarith
      · nlinarith
    exact .inl ⟨hlow.le, hhigh.le, fun _ => ⟨hlow, hhigh⟩⟩

theorem strip_value (fuel : Nat) (s : Scaled) :
    ((strip fuel s).digits : ℚ) * 10 ^ (strip fuel s).power = s.digits * 10 ^ s.power := by
  induction fuel generalizing s with
  | zero => rfl
  | succ fuel ih =>
    unfold strip
    split
    · rename_i h
      have hdigits : (s.digits : ℚ) = 10 * (s.digits / 10 : Nat) := by
        have hnat : s.digits = 10 * (s.digits / 10) := by omega
        exact_mod_cast hnat
      rw [ih]
      dsimp only
      rw [hdigits, zpow_add_one₀ (by norm_num)]
      ring
    · rfl

end Shortest

open Shortest

variable {b : Binary}

/-- The shortest decimal of a float lies in its interval. -/
theorem rounds_shortest (hc : Canonical b.mantissa b.exponent) :
    Rounds b.mantissa b.exponent ((shortest b).digits * 10 ^ (shortest b).power) := by
  have hi := spans_interval hc
  have hid : (0 : ℚ) < (interval b).den := by exact_mod_cast hi.pos
  have hmid : ((interval b).mid : ℚ) / (interval b).den = b.mantissa * 2 ^ b.exponent := by
    rw [hi.mid, mul_div_cancel_right₀ _ hid.ne']
  have hmidpos : 0 < (interval b).mid := by
    have hpos : (0 : ℚ) < (interval b).mid := by
      have hm : (0 : ℚ) < b.mantissa := by exact_mod_cast hc.pos
      rw [hi.mid]
      exact mul_pos (mul_pos hm (two_zpow_pos _)) hid
    exact_mod_cast hpos
  have htop := reaches_leading hmidpos hi.pos hi.small
  rw [hmid] at htop
  have hlast := exists_onGrid hc hi htop
  unfold shortest
  rw [if_neg hc.pos.ne']
  dsimp only
  split
  · rename_i s hs
    obtain ⟨n, -, hn⟩ := List.exists_of_findSome?_eq_some hs
    obtain ⟨hmem, hpower⟩ := mem_of_onGrid hn
    rw [strip_value]
    rw [mem_iff hi (tenTo_pos _).2, Nat.cast_mul, mul_div_assoc, tenTo_value, ← hpower] at hmem
    exact hmem
  · rename_i hnone
    have hgrid := List.findSome?_eq_none_iff.1 hnone 16 (List.mem_range.2 (by omega))
    have hnever : (onGrid (interval b) (leading (interval b).mid (interval b).den - 16)).isSome =
        false := Option.isSome_eq_false_iff.2 (Option.isNone_iff_eq_none.2 hgrid)
    rw [hnever] at hlast
    cases hlast

/-- A decimal that is as much as the shortest one of a float is read as that float. -/
theorem signed_closest {x : Float} (hx : read x = .finite b) {d : Nat} {p : Int}
    (hv : (d : ℚ) * 10 ^ p = (shortest b).digits * 10 ^ (shortest b).power) :
    (if b.negative then -closest d p else closest d p) = x := by
  by_cases hm : b.mantissa = 0
  · -- zero has no digits, but it has a sign
    have hs : shortest b = ⟨0, 0⟩ := if_pos hm
    have hd : d = 0 := by
      rw [hs] at hv
      have hzero : (d : ℚ) * 10 ^ p = 0 := by simpa using hv
      exact_mod_cast (mul_eq_zero.1 hzero).resolve_right (ten_zpow_pos p).ne'
    have hclosest : closest d p = 0.0 := if_pos (.inl hd)
    have hplus : (read 0.0).unpacked = .zero .positive := by
      have hread : read 0.0 = .finite ⟨false, 0, -1074⟩ := by decide +kernel
      rw [hread]
      rfl
    have hminus : (read (-0.0)).unpacked = .zero .negative := by
      have hread : read (-0.0) = .finite ⟨true, 0, -1074⟩ := by decide +kernel
      rw [hread]
      rfl
    have hunpacked : (read x).unpacked = .zero (signOf b.negative) := by
      rw [hx, Reading.unpacked, dif_pos hm]
    rw [hclosest]
    cases hb : b.negative with
    | false => exact eq_of_unpacked (by rw [hunpacked, hb]; exact hplus)
    | true => exact eq_of_unpacked (by rw [hunpacked, hb]; exact hminus)
  · have hc := canonical_of_read hx hm
    have hclosest := closest_eq hc (hv ▸ rounds_shortest hc)
    have hself := ofModel_pack_read x
    rw [hx, Reading.unpacked, dif_neg hm] at hself
    rw [hclosest, neg_floatOf]
    cases hb : b.negative with
    | false =>
      rw [hb] at hself
      exact hself
    | true =>
      rw [hb] at hself
      exact hself

end Kanban.Decimal
