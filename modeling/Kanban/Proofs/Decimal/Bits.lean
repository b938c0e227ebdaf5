import Kanban.Proofs.Decimal.Rounding

/-!
# Kanban.Proofs.Decimal.Bits — a float is what its bits say

Reading the bits of a float takes it apart into sign, mantissa and exponent, and nothing is lost:
a float is put together again from what was read.

* `unpack_eq` — the parts that the arithmetic of floats sees are those that are read.
* `pack_unpack` — a float is put together from its parts.
* `unpack_pack` — and its parts are those that it was put together from.
-/

namespace Kanban.Decimal

open Float.Model Float.Model.UnpackedFloat Rounding

/-- The sign of a number. -/
def signOf (negative : Bool) : Sign := if negative then .negative else .positive

/-- The parts of a float as the arithmetic of floats has them. -/
def Reading.unpacked : Reading → UnpackedFloat
  | .undefined => .notANumber
  | .infinite negative => .infinity (signOf negative)
  | .finite b =>
    if h : b.mantissa = 0 then .zero (signOf b.negative)
    else .finite (signOf b.negative) b.mantissa b.exponent (Nat.pos_of_ne_zero h)

/-! ## The bits of a float -/

section Fields

variable (b : BitVec Format.binary64.numBits)

theorem toNat_unpackMantissa : (unpackMantissa b).toNat = b.toNat % 2 ^ 52 := by
  simp [unpackMantissa, BitVec.extractLsb, BitVec.extractLsb']

theorem toNat_unpackExponent : (unpackExponent b).toNat = b.toNat / 2 ^ 52 % 2 ^ 11 := by
  simp [unpackExponent, BitVec.extractLsb, BitVec.extractLsb', Nat.shiftRight_eq_div_pow]

theorem toNat_unpackSign : (unpackSign b).toNat = b.toNat / 2 ^ 63 := by
  have hlt : b.toNat / 2 ^ 63 < 2 := by
    have hb : b.toNat < 2 ^ 64 := b.isLt
    omega
  have hbit : (unpackSign b).toNat = b.toNat / 2 ^ 63 % 2 := by
    simp [unpackSign, BitVec.extractLsb, BitVec.extractLsb', Nat.shiftRight_eq_div_pow]
  rw [hbit, Nat.mod_eq_of_lt hlt]

end Fields

/-! ## Taking apart -/

/-- Bits as they are read. -/
def readBits (b : BitVec Format.binary64.numBits) : Reading :=
  let negative := b.toNat / Nat.pow 2 63 == 1
  let e : Nat := b.toNat / Nat.pow 2 52 % Nat.pow 2 11
  let m : Nat := b.toNat % Nat.pow 2 52
  if e = 2047 then
    if m = 0 then .infinite negative else .undefined
  else if e = 0 then .finite ⟨negative, m, -1074⟩
  else .finite ⟨negative, Nat.pow 2 52 + m, (e : Int) - 1075⟩

theorem read_eq (x : Float) : read x = readBits x.toModel.toBits.toBitVec := rfl

/-- The sign bit of a float. -/
theorem signOf_eq (b : BitVec Format.binary64.numBits) :
    signOf (b.toNat / 2 ^ 63 == 1) = Sign.ofBitVec (unpackSign b) := by
  have hone (c : BitVec 1) : c = 0#1 ∨ c = 1#1 := by
    revert c
    decide
  rw [← toNat_unpackSign]
  rcases hone (unpackSign b) with hc | hc
  · rw [hc]
    rfl
  · rw [hc]
    rfl

theorem exponent_eq_iff (e : BitVec 11) : e = -1#11 ↔ e.toNat = 2047 := by
  rw [← BitVec.toNat_inj]
  rfl

theorem eq_zero_iff {n : Nat} (b : BitVec n) : b = 0#n ↔ b.toNat = 0 := by
  rw [← BitVec.toNat_inj, BitVec.toNat_ofNat, Nat.zero_mod]

theorem mantissa_append (m : BitVec 52) : (1#1 ++ m).toNat = 2 ^ 52 + m.toNat := by
  rw [BitVec.toNat_append, ← Nat.shiftLeft_add_eq_or_of_lt m.isLt]
  rfl

/-- The parts that the arithmetic of floats sees are those that are read. -/
theorem unpack_bits (b : BitVec Format.binary64.numBits) :
    UnpackedFloat.unpack .binary64 b = (readBits b).unpacked := by
  have hm := toNat_unpackMantissa b
  have he := toNat_unpackExponent b
  have hbias : ((Format.binary64.exponentBias : Int) + (52 : Nat)) = 1075 := rfl
  unfold UnpackedFloat.unpack readBits
  simp only [Nat.pow_eq]
  rw [← hm, ← he]
  -- All exponent bits set: infinite or no number. None set: zero or subnormal.
  by_cases h1 : (unpackExponent b).toNat = 2047
  · rw [if_pos ((exponent_eq_iff _).2 h1), if_pos h1]
    by_cases hm0 : (unpackMantissa b).toNat = 0
    · rw [if_pos ((eq_zero_iff _).2 hm0), if_pos hm0, Reading.unpacked, signOf_eq]
    · rw [if_neg (fun h => hm0 ((eq_zero_iff _).1 h)), if_neg hm0, Reading.unpacked]
  · rw [if_neg (fun h => h1 ((exponent_eq_iff _).1 h)), if_neg h1]
    by_cases h0 : (unpackExponent b).toNat = 0
    · rw [if_pos ((eq_zero_iff _).2 h0), if_pos h0]
      by_cases hm0 : (unpackMantissa b).toNat = 0
      · rw [dif_pos ((eq_zero_iff _).2 hm0), Reading.unpacked, dif_pos hm0, signOf_eq]
      · rw [dif_neg (fun h => hm0 ((eq_zero_iff _).1 h)), Reading.unpacked, dif_neg hm0]
        simp only [signOf_eq, hbias, h0]
        rfl
    · rw [if_neg (fun h => h0 ((eq_zero_iff _).1 h)), if_neg h0, Reading.unpacked,
        dif_neg (by simp)]
      simp only [signOf_eq, hbias, mantissa_append]

/-- The parts that the arithmetic of floats sees are those that are read. -/
theorem unpack_eq (x : Float) : x.toModel.unpack = (read x).unpacked := unpack_bits _

/-- What is read is zero, or a mantissa and an exponent as floats have them. -/
theorem canonical_of_read {x : Float} {b : Binary} (h : read x = .finite b) (hb : b.mantissa ≠ 0) :
    Canonical b.mantissa b.exponent := by
  rw [read_eq] at h
  unfold readBits at h
  simp only [Nat.pow_eq] at h
  generalize BitVec.toNat (w := Format.binary64.numBits) x.toModel.toBits.toBitVec = n at h
  have hm : n % 2 ^ 52 < 2 ^ 52 := Nat.mod_lt _ (by norm_num)
  have he : n / 2 ^ 52 % 2 ^ 11 < 2 ^ 11 := Nat.mod_lt _ (by norm_num)
  split at h
  · split at h <;> cases h
  · rename_i h1
    split at h
    · obtain rfl := Reading.finite.inj h
      exact ⟨Nat.pos_of_ne_zero hb, by dsimp only; omega, by dsimp only; omega,
        by dsimp only; omega, .inl rfl⟩
    · obtain rfl := Reading.finite.inj h
      exact ⟨Nat.pos_of_ne_zero hb, by dsimp only; omega, by dsimp only; omega,
        by dsimp only; omega, .inr (by dsimp only; omega)⟩

/-! ## Putting together -/

/-- The bits of a float, by whether its mantissa is full. -/
theorem pack_finite {m : Nat} {e : Int} (h : Canonical m e) (s : Sign) :
    UnpackedFloat.pack .binary64 (.finite s m e h.pos) =
      if 2 ^ 52 ≤ m then
        packComponents .binary64 s (BitVec.ofNat 11 (e + 1075).toNat) (BitVec.ofNat 52 m)
      else packComponents .binary64 s 0#11 (BitVec.ofNat 52 m) := by
  have hleast := h.least
  have hmost := h.most
  have hbias : (e + (Format.binary64.exponentBias : Int) + (52 : Nat)).toNat = (e + 1075).toNat := by
    congr 1
    rw [Int.add_assoc]
    rfl
  have hfits : ¬ 2 ^ 11 ≤ (e + 1075).toNat + 1 := by omega
  -- A mantissa of full width has its leading bit implied, a shorter one is subnormal.
  have hbits : m.log2 + 1 = Format.binary64.mantissaBits ↔ 2 ^ 52 ≤ m := by
    have hlt := (Nat.log2_lt h.pos.ne').2 h.lt
    have hle := Nat.le_log2 h.pos.ne' (k := 52)
    have hdef : Format.binary64.mantissaBits = 53 := rfl
    rw [hdef]
    omega
  unfold UnpackedFloat.pack
  dsimp only
  rw [hbias, if_neg hfits]
  by_cases hfull : 2 ^ 52 ≤ m
  · rw [if_pos (hbits.2 hfull), if_pos hfull]
  · rw [if_neg (fun hb => hfull (hbits.1 hb)), if_neg hfull]

/-- A mantissa and an exponent as floats have them make a float with these parts. -/
theorem unpack_pack {m : Nat} {e : Int} (h : Canonical m e) (s : Sign) :
    (Float.Model.pack (.finite s m e h.pos)).unpack = .finite s m e h.pos := by
  have hleast := h.least
  have hmost := h.most
  have hlt := h.lt
  have hbias : ((Format.binary64.exponentBias : Int) + (52 : Nat)) = 1075 := rfl
  have hpacked : (Float.Model.pack (.finite s m e h.pos)).unpack =
      UnpackedFloat.unpack .binary64 (UnpackedFloat.pack .binary64 (.finite s m e h.pos)) := rfl
  rw [hpacked, pack_finite h]
  by_cases hfull : 2 ^ 52 ≤ m
  · -- the leading bit of a full mantissa is left out, and put back
    have he : (BitVec.ofNat 11 (e + 1075).toNat).toNat = (e + 1075).toNat := by
      rw [BitVec.toNat_ofNat, Nat.mod_eq_of_lt (by omega)]
    have hm : (BitVec.ofNat 52 m).toNat = m - 2 ^ 52 := by
      rw [BitVec.toNat_ofNat]
      omega
    have hinf : BitVec.ofNat 11 (e + 1075).toNat ≠ -1#11 := by
      rw [Ne, exponent_eq_iff, he]
      omega
    have hzero : BitVec.ofNat 11 (e + 1075).toNat ≠ 0#11 := by
      rw [Ne, eq_zero_iff, he]
      omega
    rw [if_pos hfull]
    unfold UnpackedFloat.unpack
    simp only [unpackMantissa_packComponents, unpackExponent_packComponents,
      unpackSign_packComponents, Sign.ofBitVec_toBitVec]
    rw [if_neg hinf, if_neg hzero]
    simp only [mantissa_append, hm, he, hbias, UnpackedFloat.finite.injEq, true_and]
    omega
  · have hm : (BitVec.ofNat 52 m).toNat = m := by
      rw [BitVec.toNat_ofNat, Nat.mod_eq_of_lt (by omega)]
    have he := h.full.resolve_right hfull
    have hzero : BitVec.ofNat 52 m ≠ 0#52 := by
      rw [Ne, eq_zero_iff, hm]
      exact h.pos.ne'
    rw [if_neg hfull]
    unfold UnpackedFloat.unpack
    simp only [unpackMantissa_packComponents, unpackExponent_packComponents,
      unpackSign_packComponents, Sign.ofBitVec_toBitVec]
    rw [if_neg (by decide), if_pos trivial, dif_neg hzero]
    simp only [hm, hbias, UnpackedFloat.finite.injEq, true_and, he]
    rfl

/-- A float is put together from its parts. -/
theorem pack_unpack (x : Float.Model) : Float.Model.pack x.unpack = x := by
  obtain ⟨bits, hvalid⟩ := x
  have hpack := pack_unpack_of_valid hvalid
  unfold Float.Model.pack Float.Model.unpack
  simp only [hpack]

/-- A float is put together from what was read. -/
theorem ofModel_pack_read (x : Float) : Float.ofModel (Float.Model.pack (read x).unpacked) = x := by
  rw [← unpack_eq, pack_unpack]

/-- Floats with the same parts are the same. -/
theorem eq_of_unpacked {x y : Float} (h : (read x).unpacked = (read y).unpacked) : x = y := by
  rw [← ofModel_pack_read x, h, ofModel_pack_read]

end Kanban.Decimal
