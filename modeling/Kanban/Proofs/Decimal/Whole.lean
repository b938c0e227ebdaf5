import Kanban.Proofs.Decimal.Closest
import Kanban.Proofs.Decimal.Sums

/-!
# Kanban.Proofs.Decimal.Whole — whole numbers that are read as floats

A whole number is read as the closest float unless it is beyond all of them. The greatest float is
`2 ^ 1024 - 2 ^ 971`, and a number is rounded to it as long as it is less than half a unit above it.

* `Rounds.beyond`, `Rounds.within` — which floats end the intervals.
* `isFinite_closest` — what is closest to a whole number.
* `ofWhole?_eq_none_iff` — the whole numbers that are beyond all floats.
-/

namespace Kanban.Decimal

open Float.Model Float.Model.UnpackedFloat Rounding

variable {M d : Nat} {E : Int} {v : ℚ} {x : Float}

/-! ## The last interval -/

/-- Half a unit above the greatest float, in units of that float and of the power of two above it. -/
theorem last_end : (2 : ℚ) ^ 1024 - 2 ^ 970 = (2 ^ 53 - 1 / 2) * 2 ^ (971 : Int) ∧
    (2 : ℚ) ^ 1024 - 2 ^ 970 = (2 ^ 52 - 1 / 4) * 2 ^ (972 : Int) := by
  have htop : (2 : ℚ) ^ 1024 = 2 ^ 54 * 2 ^ 970 := pow_add 2 54 970
  have hunit : (2 : ℚ) ^ (971 : Int) = 2 * 2 ^ 970 := (zpow_natCast 2 971).trans (pow_succ' 2 970)
  have hnext : (2 : ℚ) ^ (972 : Int) = 2 * (2 * 2 ^ 970) := by
    rw [← hunit, ← zpow_one_add₀ (by norm_num : (2 : ℚ) ≠ 0)]
    rfl
  rw [htop, hunit, hnext]
  generalize (2 : ℚ) ^ 970 = u
  constructor <;> ring

/-- What is rounded to more than any float is at least half a unit above the greatest float. -/
theorem Rounding.Rounds.beyond (hr : Rounds M E v) (hM : Shaped M E) (hE : 971 < E) :
    2 ^ 1024 - 2 ^ 970 ≤ v := by
  have hfull : 2 ^ 52 ≤ M := hM.full.resolve_left (by omega)
  have hunit : (2 : ℚ) ^ (972 : Int) ≤ 2 ^ E := zpow_le_zpow_right₀ (by norm_num) (by omega)
  have hlow : (2 ^ 52 - 1 / 4 : ℚ) * 2 ^ E ≤ lowest M E := by
    have hp := two_zpow_pos E
    unfold lowest
    split
    · rename_i hleast
      rw [hleast.1]
      push_cast
      exact le_rfl
    · rename_i hmore
      have hgt : 2 ^ 52 + 1 ≤ M := by
        have hne : M ≠ 2 ^ 52 := fun heq => hmore ⟨heq, by omega⟩
        omega
      have hgt' : (2 : ℚ) ^ 52 + 1 ≤ M := by exact_mod_cast hgt
      exact mul_le_mul_of_nonneg_right (by linarith) hp.le
  calc (2 : ℚ) ^ 1024 - 2 ^ 970 = (2 ^ 52 - 1 / 4) * 2 ^ (972 : Int) := last_end.2
    _ ≤ (2 ^ 52 - 1 / 4) * 2 ^ E := mul_le_mul_of_nonneg_left hunit (by norm_num)
    _ ≤ v := hlow.trans hr.low

/-- What is rounded to a float is less than half a unit above the greatest float. -/
theorem Rounding.Rounds.within (hr : Rounds M E v) (hM : Shaped M E) (hE : E ≤ 971) :
    v < 2 ^ 1024 - 2 ^ 970 := by
  have hp := two_zpow_pos E
  have hunit : (2 : ℚ) ^ E ≤ 2 ^ (971 : Int) := zpow_le_zpow_right₀ (by norm_num) hE
  have hlt := hM.lt
  rw [last_end.1]
  by_cases hodd : M % 2 = 1
  · -- the ends do not belong to the interval of an odd mantissa
    have hM' : (M : ℚ) + 1 ≤ 2 ^ 53 := by exact_mod_cast hlt
    calc v < (M + 1 / 2) * 2 ^ E := (hr.inside hodd).2
      _ ≤ (2 ^ 53 - 1 / 2) * 2 ^ E := mul_le_mul_of_nonneg_right (by linarith) hp.le
      _ ≤ (2 ^ 53 - 1 / 2) * 2 ^ (971 : Int) := mul_le_mul_of_nonneg_left hunit (by norm_num)
  · -- and an even mantissa is not the greatest
    have hM' : (M : ℚ) + 2 ≤ 2 ^ 53 := by
      have hnat : M + 2 ≤ 2 ^ 53 := by omega
      exact_mod_cast hnat
    calc v ≤ (M + 1 / 2) * 2 ^ E := hr.high
      _ < (2 ^ 53 - 1 / 2) * 2 ^ E := mul_lt_mul_of_pos_right (by linarith) hp
      _ ≤ (2 ^ 53 - 1 / 2) * 2 ^ (971 : Int) := mul_le_mul_of_nonneg_left hunit (by norm_num)

/-! ## What is closest to a whole number -/

theorem isFinite_of_bounded (h : Bounded x.toModel.unpack) : isFinite x = true := by
  rw [unpack_eq] at h
  unfold isFinite
  cases hr : read x with
  | finite b => rfl
  | infinite s =>
    rw [hr] at h
    exact h.elim
  | undefined =>
    rw [hr] at h
    exact h.elim

theorem isFinite_floatOf (s : Sign) (h : Canonical M E) : isFinite (floatOf s h) = true :=
  isFinite_of_bounded (by rw [unpack_floatOf]; trivial)

/-- What is infinite is not finite. -/
theorem isFinite_of_infinity {s : Sign} (h : x.toModel.unpack = .infinity s) : isFinite x = false := by
  rw [← Bool.not_eq_true]
  intro hx
  have hb := bounded_unpack hx
  rw [h] at hb
  exact hb

/-- A whole number is rounded to a float in whose interval it lies, or beyond all floats. -/
theorem ofScientific_whole (hd : 0 < d) : ∃ M E, ∃ hM : Shaped M E, Rounds M E d ∧
    UnpackedFloat.ofScientific .binary64 d 0 = .finite .positive M E hM.pos := by
  have hbits : ((2 : Int) ^ Format.binary64.exponentBits) = 2048 := rfl
  have hlog : 53 ≤ (d <<< 53).log2 := by
    rw [log2_shiftLeft hd]
    omega
  have hvalue : (((d <<< 53) * 10 ^ 0 : Nat) : ℚ) * 2 ^ (-53 + 0 : Int) = d := by
    rw [Nat.shiftLeft_eq, pow_zero, Nat.mul_one, add_zero, zpow_neg]
    push_cast
    exact mul_inv_cancel_right₀ (by norm_num) _
  have hgiven : Given ((d <<< 53) * 10 ^ 0) (-53 + 0) .exact d := by
    refine ⟨?_, ?_, fun h0 => ?_⟩
    · change (d : ℚ) / _ = (((d <<< 53) * 10 ^ 0 : Nat) : ℚ)
      rw [div_eq_iff (two_zpow_pos _).ne', hvalue]
    · rw [pow_zero, Nat.mul_one]
      omega
    · rw [pow_zero, Nat.mul_one] at h0
      rw [h0] at hlog
      simp at hlog
  have hround : UnpackedFloat.ofScientific .binary64 d 0 =
      roundWithAccuracy .binary64 .positive ((d <<< 53) * 10 ^ 0) (-53 + 0) .exact := by
    unfold UnpackedFloat.ofScientific
    rw [dif_neg hd.ne', hbits, if_neg (by omega), if_neg (by omega), if_pos (le_refl 0)]
    rfl
  rcases hgiven.rounded .positive with ⟨hsmall, -⟩ | ⟨M, E, hM, hr, hfinite⟩
  · -- a whole number is not rounded to zero
    have hone : (1 : ℚ) ≤ d := by exact_mod_cast hd
    have hleast : (2 : ℚ) ^ (-1074 : Int) ≤ 2 ^ (0 : Int) :=
      zpow_le_zpow_right₀ (by norm_num) (by norm_num)
    rw [zpow_zero] at hleast
    linarith
  · exact ⟨M, E, hM, hr, hround.trans hfinite⟩

theorem two_pow_lt : 2 ^ 970 < 2 ^ 1024 := by
  apply Nat.pow_lt_pow_right <;> omega

theorem cast_end : ((2 ^ 1024 - 2 ^ 970 : Nat) : ℚ) = 2 ^ 1024 - 2 ^ 970 := by
  rw [Nat.cast_sub two_pow_lt.le]
  simp only [Nat.cast_pow, Nat.cast_ofNat]

/-- What is closest to a whole number beyond all floats is infinite. -/
theorem not_isFinite_closest (hM : Shaped M E) (hE : 971 < E) (hr : Rounds M E d)
    (hround : UnpackedFloat.ofScientific .binary64 d 0 = .finite .positive M E hM.pos) :
    isFinite (closest d 0) = false := by
  have hlarge : 2 ^ 53 ≤ d := by
    have hbeyond := hr.beyond hM hE
    rw [← cast_end] at hbeyond
    have hnat : 2 ^ 1024 - 2 ^ 970 ≤ d := by exact_mod_cast hbeyond
    have hfar : 2 ^ 53 ≤ 2 ^ 1024 - 2 ^ 970 := by decide +kernel
    exact hfar.trans hnat
  unfold closest
  dsimp only
  split
  · omega
  · split
    · decide +kernel
    · unfold Float.ofScientific
      rw [dif_neg (by omega)]
      exact isFinite_of_infinity ((congrArg (fun u => (Float.Model.pack u).unpack) hround).trans
        (unpack_pack_overflow hM hE .positive))

/-- The closest float is one of the numbers unless the whole number is beyond all of them. -/
theorem isFinite_closest (d : Nat) : isFinite (closest d 0) = true ↔ d < 2 ^ 1024 - 2 ^ 970 := by
  rcases Nat.eq_zero_or_pos d with rfl | hd
  · have hzero : isFinite (closest 0 0) = true := by decide +kernel
    exact iff_of_true hzero (Nat.sub_pos_of_lt two_pow_lt)
  · have hcast : d < 2 ^ 1024 - 2 ^ 970 ↔ (d : ℚ) < 2 ^ 1024 - 2 ^ 970 := by
      rw [← cast_end]
      exact Nat.cast_lt.symm
    rw [hcast]
    rcases ofScientific_whole hd with ⟨M, E, hM, hr, hround⟩
    by_cases hE : E ≤ 971
    · have hc := hM.canonical hE
      have hself : closest d 0 = floatOf .positive hc := closest_eq hc (by simpa using hr)
      rw [hself]
      exact iff_of_true (isFinite_floatOf .positive hc) (hr.within hM hE)
    · have hE' : 971 < E := by omega
      exact iff_of_false (by rw [not_isFinite_closest hM hE' hr hround]; simp)
        (not_lt.2 (hr.beyond hM hE'))

/-- The whole numbers that no float stands for. -/
theorem ofWhole?_eq_none_iff (n : Int) : ofWhole? n = none ↔ 2 ^ 1024 - 2 ^ 970 ≤ n.natAbs := by
  rw [← Nat.not_lt, ← isFinite_closest]
  unfold ofWhole?
  by_cases h : isFinite (closest n.natAbs 0) = true <;> simp [h]

end Kanban.Decimal
