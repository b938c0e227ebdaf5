import Kanban.Decimal.Numeral
import Kanban.Proofs.Decimal.Bits

/-!
# Kanban.Proofs.Decimal.Closest — decimals that are read as a float

A decimal in the interval of a float is read as that float, whichever way its digits and its power
are turned into one: by one operation on two floats that are exact, or by way of whole numbers.

* `exact_toFloat`, `exact_ten` — the two floats of the short way are exact.
* `ofScientific_eq` — both ways end at the float whose interval it is.
* `closest_eq` — and no such decimal is taken for zero or for infinity beforehand.
-/

namespace Kanban.Decimal

open Float.Model Float.Model.UnpackedFloat Rounding

variable {M d : Nat} {E p : Int} {v a b : ℚ} {x y : Float}

/-- The float with a mantissa and an exponent. -/
def floatOf (s : Sign) (h : Canonical M E) : Float :=
  Float.ofModel (Float.Model.pack (.finite s M E h.pos))

@[simp] theorem unpack_floatOf (s : Sign) (h : Canonical M E) :
    (floatOf s h).toModel.unpack = .finite s M E h.pos := unpack_pack h s

theorem neg_floatOf (s : Sign) (h : Canonical M E) : -floatOf s h = floatOf (-s) h := by
  have hneg : -floatOf s h =
      Float.ofModel (Float.Model.pack (UnpackedFloat.neg (floatOf s h).toModel.unpack)) := rfl
  rw [hneg, unpack_floatOf]
  rfl

/-- A float lies in its own interval. -/
theorem rounds_self (m : Nat) (e : Int) : Rounds m e (m * 2 ^ e) := by
  have hp := two_zpow_pos e
  have hlow : lowest m e < m * 2 ^ e := by
    unfold lowest
    split <;> nlinarith
  have hhigh : m * 2 ^ e < highest m e := by
    unfold highest
    nlinarith
  exact ⟨hlow.le, hhigh.le, fun _ => ⟨hlow, hhigh⟩⟩

/-! ## One operation on two floats -/

/-- A float is a positive number, and all digits of its mantissa are in use. -/
def Exact (x : Float) (a : ℚ) : Prop :=
  ∃ (m : Nat) (e : Int) (h : 0 < m),
    x.toModel.unpack = .finite .positive m e h ∧ 2 ^ 52 ≤ m ∧ (m : ℚ) * 2 ^ e = a

theorem Exact.mul (hx : Exact x a) (hy : Exact y b) (hc : Canonical M E)
    (hr : Rounds M E (a * b)) : x * y = floatOf .positive hc := by
  obtain ⟨m₁, e₁, h₁, hx, hfull, rfl⟩ := hx
  obtain ⟨m₂, e₂, h₂, hy, -, rfl⟩ := hy
  have hmul : x * y = Float.ofModel
      (Float.Model.pack (UnpackedFloat.mul .binary64 x.toModel.unpack y.toModel.unpack)) := rfl
  rw [hmul, hx, hy, mul_eq h₁ h₂ (hfull.trans (Nat.le_mul_of_pos_right m₁ h₂)) hc hr]
  rfl

theorem Exact.div (hx : Exact x a) (hy : Exact y b) (hc : Canonical M E)
    (hr : Rounds M E (a / b)) : x / y = floatOf .positive hc := by
  obtain ⟨m₁, e₁, h₁, hx, -, rfl⟩ := hx
  obtain ⟨m₂, e₂, h₂, hy, -, rfl⟩ := hy
  have hdiv : x / y = Float.ofModel
      (Float.Model.pack (UnpackedFloat.div .binary64 x.toModel.unpack y.toModel.unpack)) := rfl
  rw [hdiv, hx, hy, div_eq h₁ h₂ hc hr]
  rfl

/-- A whole number with as many bits as a mantissa has is a float. -/
theorem exact_toFloat (h0 : 0 < d) (hd : d < 2 ^ 53) : Exact d.toUInt64.toFloat d := by
  have hlog : d.log2 ≤ 52 := by
    have hlt := (Nat.log2_lt h0.ne').2 hd
    omega
  have hlow : 2 ^ d.log2 ≤ d := Nat.log2_self_le h0.ne'
  have hhigh : d < 2 ^ (d.log2 + 1) := Nat.lt_log2_self
  -- the digits are moved to the front of the mantissa
  have hfull : 2 ^ 52 ≤ d <<< (52 - d.log2) := by
    rw [Nat.shiftLeft_eq]
    calc 2 ^ 52 = 2 ^ d.log2 * 2 ^ (52 - d.log2) := by rw [← Nat.pow_add]; congr 1; omega
      _ ≤ d * 2 ^ (52 - d.log2) := Nat.mul_le_mul_right _ hlow
  have hfits : d <<< (52 - d.log2) < 2 ^ 53 := by
    rw [Nat.shiftLeft_eq]
    calc d * 2 ^ (52 - d.log2) < 2 ^ (d.log2 + 1) * 2 ^ (52 - d.log2) :=
          Nat.mul_lt_mul_of_pos_right hhigh (Nat.two_pow_pos _)
      _ = 2 ^ 53 := by rw [← Nat.pow_add]; congr 1; omega
  have hc : Canonical (d <<< (52 - d.log2)) ((d.log2 : Int) - 52) :=
    ⟨by omega, hfits, by omega, by omega, .inr hfull⟩
  have hvalue : ((d <<< (52 - d.log2) : Nat) : ℚ) * 2 ^ ((d.log2 : Int) - 52) = d := by
    have hexp : ((d.log2 : Int) - 52) = -((52 - d.log2 : Nat) : Int) := by omega
    rw [Nat.shiftLeft_eq, hexp, zpow_neg, zpow_natCast]
    push_cast
    field_simp
  have htarget : Format.binary64.targetExponent (totalExponent d 0) = (d.log2 : Int) - 52 := by
    rw [target_eq, totalExponent]
    omega
  have hdecrease : decreaseExponent d 0 ((d.log2 : Int) - 52) =
      (d <<< (52 - d.log2), (d.log2 : Int) - 52) := by
    have hamount : (0 - ((d.log2 : Int) - 52)).toNat = 52 - d.log2 := by omega
    unfold decreaseExponent
    simp only [hamount, Prod.mk.injEq, true_and]
    omega
  have hround : UnpackedFloat.ofNat .binary64 d =
      .finite .positive (d <<< (52 - d.log2)) ((d.log2 : Int) - 52) hc.pos := by
    have hcmp : compare (d : Int) 0 = .gt := compare_gt_iff_gt.2 (by omega)
    unfold UnpackedFloat.ofNat UnpackedFloat.ofInt UnpackedFloat.normalize
    rw [hcmp]
    dsimp only [Int.toNat_natCast]
    unfold UnpackedFloat.round
    rw [htarget]
    simp only [hdecrease]
    refine round_eq (v := d) ⟨?_, ?_, ?_⟩ hc (hvalue ▸ rounds_self _ _) .positive
    · change (d : ℚ) / _ = ((d <<< (52 - d.log2) : Nat) : ℚ)
      rw [div_eq_iff (two_zpow_pos _).ne', hvalue]
    · have hbits : 52 ≤ (d <<< (52 - d.log2)).log2 := (Nat.le_log2 (by omega)).2 hfull
      omega
    · intro hz
      omega
  have hword : d.toUInt64.toNat = d := by
    have hmod : d.toUInt64.toNat = d % 2 ^ 64 := UInt64.toNat_ofNat'
    omega
  have hfloat : d.toUInt64.toFloat =
      Float.ofModel (Float.Model.pack (.ofNat .binary64 d.toUInt64.toNat)) := rfl
  refine ⟨_, _, hc.pos, ?_, hfull, hvalue⟩
  rw [hfloat, hword, hround]
  exact unpack_pack hc .positive

/-- Whether a float is a power of ten. -/
def isTen (k : Nat) (x : Float) : Bool :=
  match read x with
  | .finite b =>
    !b.negative && Nat.pow 2 52 ≤ b.mantissa && -52 ≤ b.exponent &&
      b.mantissa * Nat.pow 2 (b.exponent + 52).toNat == Nat.pow 10 k * Nat.pow 2 52
  | _ => false

theorem Exact.of_isTen {k : Nat} (h : isTen k x = true) : Exact x (10 ^ k) := by
  unfold isTen at h
  split at h
  · rename_i b hb
    simp only [Bool.and_eq_true, Bool.not_eq_true', decide_eq_true_eq, beq_iff_eq,
      Nat.pow_eq] at h
    obtain ⟨⟨⟨hsign, hfull⟩, hexp⟩, hvalue⟩ := h
    have hm : b.mantissa ≠ 0 := by omega
    refine ⟨b.mantissa, b.exponent, Nat.pos_of_ne_zero hm, ?_, hfull, ?_⟩
    · rw [unpack_eq, hb, Reading.unpacked, dif_neg hm, hsign]
      rfl
    · have hcast : (b.mantissa : ℚ) * 2 ^ (b.exponent + 52).toNat = 10 ^ k * 2 ^ 52 := by
        exact_mod_cast hvalue
      have hpow : (2 : ℚ) ^ (b.exponent + 52).toNat = 2 ^ b.exponent * 2 ^ 52 := by
        have htoNat : ((b.exponent + 52).toNat : Int) = b.exponent + 52 := by omega
        rw [← zpow_natCast, htoNat, zpow_add₀ (by norm_num : (2 : ℚ) ≠ 0)]
        norm_cast
      rw [hpow, ← mul_assoc] at hcast
      exact mul_right_cancel₀ (by norm_num) hcast
  · cases h

/-- The small powers of ten are floats. -/
theorem exact_ten (k : Fin Float.exactlyRepresentablePowersOfTen.size) :
    Exact Float.exactlyRepresentablePowersOfTen[k] (10 ^ k.val) := by
  have hall : ∀ k : Fin Float.exactlyRepresentablePowersOfTen.size,
      isTen k Float.exactlyRepresentablePowersOfTen[k] = true := by decide +kernel
  exact .of_isTen (hall k)

/-! ## By way of whole numbers -/

theorem Rounding.Rounds.pos (hc : Canonical M E) (hr : Rounds M E v) : 0 < v := by
  have hp := two_zpow_pos E
  have hlow := (half_le_lowest M E).trans hr.low
  have hM : (1 : ℚ) ≤ M := by exact_mod_cast hc.pos
  nlinarith

/-- Powers of ten that are out of reach are looked for first. -/
theorem ofScientific_model (hd : 0 < d) (hbig : p ≤ 2048) (hsmall : -(2048 + d.log2) ≤ p)
    (hc : Canonical M E) (hr : Rounds M E (d * 10 ^ p)) :
    UnpackedFloat.ofScientific .binary64 d p = .finite .positive M E hc.pos := by
  have hbits : ((2 : Int) ^ Format.binary64.exponentBits) = 2048 := rfl
  unfold UnpackedFloat.ofScientific
  rw [dif_neg hd.ne', hbits, if_neg (by omega), if_neg (by omega)]
  by_cases hp : 0 ≤ p
  · obtain ⟨k, rfl⟩ := Int.eq_ofNat_of_zero_le hp
    rw [if_pos hp]
    have hwide : 2 ^ 52 ≤ (d <<< 53) * 10 ^ k := by
      rw [Nat.shiftLeft_eq]
      have hten : 0 < 10 ^ k := Nat.pow_pos (by omega)
      nlinarith
    have hvalue : ((d <<< 53 : Nat) : ℚ) * 2 ^ (-53 : Int) * ((10 ^ k : Nat) * 2 ^ (0 : Int)) =
        d * 10 ^ (k : Int) := by
      rw [Nat.shiftLeft_eq, zpow_natCast]
      push_cast
      norm_num
      ring
    rw [← hvalue] at hr
    exact mul_eq (by omega) (Nat.pow_pos (by omega)) hwide hc hr .positive .positive
  · obtain ⟨k, rfl⟩ := Int.exists_eq_neg_ofNat (Int.le_of_lt (Int.not_le.1 hp))
    rw [if_neg hp]
    have hvalue : (d : ℚ) * 2 ^ (0 : Int) / ((10 ^ (- -(k : Int)).toNat : Nat) * 2 ^ (0 : Int)) =
        d * 10 ^ (-(k : Int)) := by
      rw [Int.neg_neg, Int.toNat_natCast, zpow_neg, zpow_natCast]
      push_cast
      rw [mul_one, mul_one, div_eq_mul_inv]
    rw [← hvalue] at hr
    exact div_eq hd (Nat.pow_pos (by omega)) hc hr .positive .positive

/-- Digits and a power of ten in the interval of a float make that float. -/
theorem ofScientific_eq (hd : 0 < d) (hbig : p ≤ 2048) (hsmall : -(2048 + d.log2) ≤ p)
    (hc : Canonical M E) (hr : Rounds M E (d * 10 ^ p)) :
    Float.ofScientific d (p < 0) p.natAbs = floatOf .positive hc := by
  have hsize : Float.exactlyRepresentablePowersOfTen.size = 23 := rfl
  unfold Float.ofScientific
  -- Small digits and a small power are both exact, so one operation rounds once. Otherwise the
  -- ratio is rounded as a whole.
  by_cases hfast : d < 2 ^ 53 ∧ p.natAbs ≤ 22
  · have hx := exact_toFloat hd hfast.1
    have hy := exact_ten ⟨p.natAbs, by omega⟩
    rw [dif_pos hfast]
    by_cases hp : p < 0
    · have hpow : (d : ℚ) / 10 ^ p.natAbs = d * 10 ^ p := by
        have hneg : p = -(p.natAbs : Int) := by omega
        rw [div_eq_mul_inv, ← zpow_natCast, ← zpow_neg, ← hneg]
      simp only [hp, decide_true, if_true]
      exact hx.div hy hc (hpow ▸ hr)
    · have hpow : (d : ℚ) * 10 ^ p.natAbs = d * 10 ^ p := by
        have hpos : p = (p.natAbs : Int) := by omega
        rw [← zpow_natCast, ← hpos]
      simp only [hp, decide_false, Bool.false_eq_true, if_false]
      exact hx.mul hy hc (hpow ▸ hr)
  · have hpower : (if decide (p < 0) = true then Int.negOfNat p.natAbs
        else Int.ofNat p.natAbs) = p := by
      by_cases hp : p < 0
      · rw [if_pos (by simpa using hp), Int.negOfNat_eq, Int.ofNat_eq_natCast]
        omega
      · rw [if_neg (by simpa using hp), Int.ofNat_eq_natCast]
        omega
    rw [dif_neg hfast]
    dsimp only
    rw [hpower, Float.Model.ofScientific, ofScientific_model hd hbig hsmall hc hr]
    rfl

/-! ## The closest float -/

/-- The floats end far below the powers of ten that are taken for infinity. -/
theorem Rounding.Rounds.lt_ten (hc : Canonical M E) (hr : Rounds M E v) : v < 10 ^ (309 : Int) := by
  have hmost := hc.most
  have hM : (M : ℚ) + 1 ≤ 2 ^ 53 := by exact_mod_cast hc.lt
  have hhigh := hr.high
  unfold highest at hhigh
  have hp := two_zpow_pos E
  have hexp : (2 : ℚ) ^ E ≤ 2 ^ (971 : Int) := zpow_le_zpow_right₀ (by norm_num) hmost
  have hten : (2 : ℚ) ^ 1024 < 10 ^ 309 := by
    have hnat : 2 ^ 1024 < 10 ^ 309 := by decide +kernel
    exact_mod_cast hnat
  calc v ≤ (M + 1 / 2) * 2 ^ E := hhigh
    _ ≤ 2 ^ 53 * 2 ^ E := mul_le_mul_of_nonneg_right (by linarith) hp.le
    _ ≤ 2 ^ 53 * 2 ^ (971 : Int) := mul_le_mul_of_nonneg_left hexp (by positivity)
    _ = 2 ^ 1024 := by
      rw [← zpow_natCast, ← zpow_natCast, ← zpow_add₀ (by norm_num : (2 : ℚ) ≠ 0)]
      rfl
    _ < 10 ^ (309 : Int) := hten

/-- The floats end far above the powers of ten that are taken for zero. -/
theorem Rounding.Rounds.ten_lt (hc : Canonical M E) (hr : Rounds M E v) : 10 ^ (-324 : Int) < v := by
  have hleast := hc.least
  have hM : (1 : ℚ) ≤ M := by exact_mod_cast hc.pos
  have hlow := (half_le_lowest M E).trans hr.low
  have hexp : (2 : ℚ) ^ (-1074 : Int) ≤ 2 ^ E := zpow_le_zpow_right₀ (by norm_num) hleast
  have hten : (2 : ℚ) ^ 1075 < 10 ^ 324 := by
    have hnat : 2 ^ 1075 < 10 ^ 324 := by decide +kernel
    exact_mod_cast hnat
  rw [← zpow_natCast, ← zpow_natCast] at hten
  calc (10 : ℚ) ^ (-324 : Int) = (10 ^ ((324 : Nat) : Int))⁻¹ := zpow_neg 10 _
    _ < (2 ^ ((1075 : Nat) : Int))⁻¹ := inv_strictAnti₀ (two_zpow_pos _) hten
    _ = 2 ^ (-1075 : Int) := (zpow_neg 2 _).symm
    _ = 1 / 2 * 2 ^ (-1074 : Int) := by
      have hsum : (-1075 : Int) = -1 + -1074 := rfl
      rw [hsum, zpow_add₀ (by norm_num : (2 : ℚ) ≠ 0), zpow_neg_one, one_div]
    _ ≤ (M - 1 / 2) * 2 ^ E := mul_le_mul (by linarith) hexp (two_zpow_pos _).le (by linarith)
    _ ≤ v := hlow

/-- Digits tell a number up to one power of ten. -/
theorem digits_bounds (hd : 0 < d) :
    (10 : ℚ) ^ (((Nat.toDigits 10 d).length : Int) - 1) ≤ d ∧
      (d : ℚ) < 10 ^ ((Nat.toDigits 10 d).length : Int) := by
  have hpos : 0 < (Nat.toDigits 10 d).length := Nat.length_toDigits_pos
  constructor
  · obtain ⟨k, hk⟩ := Nat.exists_eq_succ_of_ne_zero hpos.ne'
    have hle : 10 ^ k ≤ d := by
      rcases Nat.eq_zero_or_pos k with rfl | hkpos
      · exact hd
      · by_contra hlt
        have hlen := (Nat.length_toDigits_le_iff (by omega) hkpos).2 (Nat.not_le.1 hlt)
        omega
    have hexp : (((Nat.toDigits 10 d).length : Int) - 1) = (k : Int) := by omega
    rw [hexp, zpow_natCast]
    exact_mod_cast hle
  · rw [zpow_natCast]
    exact_mod_cast (Nat.length_toDigits_le_iff (by omega) hpos).1 (le_refl _)

/-- A decimal in the interval of a float is read as that float. -/
theorem closest_eq (hc : Canonical M E) (hr : Rounds M E (d * 10 ^ p)) :
    closest d p = floatOf .positive hc := by
  have hd : 0 < d := by
    rcases Nat.eq_zero_or_pos d with rfl | hd
    · have hpos := hr.pos hc
      simp at hpos
    · exact hd
  have hten (k : Int) : (0 : ℚ) < 10 ^ k := zpow_pos (by norm_num) k
  have hlt {j k : Int} (h : (10 : ℚ) ^ j < 10 ^ k) : j < k :=
    (zpow_lt_zpow_iff_right₀ (by norm_num)).1 h
  obtain ⟨hlow, hhigh⟩ := digits_bounds hd
  have habove : ((Nat.toDigits 10 d).length : Int) - 1 + p < 309 := by
    refine hlt (lt_of_le_of_lt ?_ (hr.lt_ten hc))
    rw [zpow_add₀ (by norm_num : (10 : ℚ) ≠ 0)]
    exact mul_le_mul_of_nonneg_right hlow (hten p).le
  have hbelow : -324 < ((Nat.toDigits 10 d).length : Int) + p := by
    refine hlt ((hr.ten_lt hc).trans ?_)
    rw [zpow_add₀ (by norm_num : (10 : ℚ) ≠ 0)]
    exact mul_lt_mul_of_pos_right hhigh (hten p)
  have hpos : 0 < (Nat.toDigits 10 d).length := Nat.length_toDigits_pos
  -- there are fewer decimal than binary digits
  have hlen : (Nat.toDigits 10 d).length ≤ d.log2 + 1 := by
    refine (Nat.length_toDigits_le_iff (by omega) (by omega)).2 ?_
    calc d < 2 ^ (d.log2 + 1) := Nat.lt_log2_self
      _ ≤ 10 ^ (d.log2 + 1) := Nat.pow_le_pow_left (by omega) _
  unfold closest
  rw [if_neg (by omega), if_neg (by omega)]
  exact ofScientific_eq hd (by omega) (by omega) hc hr

end Kanban.Decimal
