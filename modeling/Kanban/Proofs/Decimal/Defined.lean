import Kanban.Proofs.Decimal.Bits

/-!
# Kanban.Proofs.Decimal.Defined — sums of numbers are defined

Adding, subtracting, scaling and halving floats gives the undefined float only where an undefined one
goes in, or two infinities. With one finite number the result is defined, infinite at most.

* `isNaN_pack` — putting parts together gives nothing undefined.
* `isNaN_add`, `isNaN_sub`, `isNaN_mul`, `isNaN_div` — where sums, differences, products and quotients
  are defined.
-/

namespace Kanban.Decimal

open Float.Model Float.Model.UnpackedFloat

/-- The parts of a finite number, zero or not. -/
def Bounded : UnpackedFloat → Prop
  | .zero _ | .finite .. => True
  | _ => False

theorem bounded_unpack {x : Float} (h : isFinite x = true) : Bounded x.toModel.unpack := by
  unfold isFinite at h
  rw [unpack_eq]
  cases hr : read x with
  | finite b =>
    unfold Reading.unpacked
    dsimp only
    split <;> trivial
  | infinite s =>
    rw [hr] at h
    cases h
  | undefined =>
    rw [hr] at h
    cases h

/-- A finite number is defined. -/
theorem isNaN_of_isFinite {x : Float} (h : isFinite x = true) : x.isNaN = false := by
  have hb := bounded_unpack h
  change x.toModel.unpack.isNaN = false
  cases hu : x.toModel.unpack with
  | notANumber =>
    rw [hu] at hb
    exact hb.elim
  | infinity | zero | finite => rfl

/-- Parts that are defined are put together to a defined float: the exponent of the undefined float is
that of infinity, and its mantissa is not zero. -/
theorem isNaN_pack {u : UnpackedFloat} (h : u ≠ .notANumber) :
    (Float.Model.pack u).unpack.isNaN = false := by
  rw [← Bool.not_eq_true]
  intro hnan
  have hbits : UnpackedFloat.pack Format.binary64 u = packedNaN Format.binary64 :=
    (isNaN_unpack_iff_of_valid (Float.Model.pack u).valid).1 hnan
  have he := congrArg unpackExponent hbits
  have hm := congrArg unpackMantissa hbits
  rw [packedNaN, unpackExponent_packComponents] at he
  rw [packedNaN, unpackMantissa_packComponents] at hm
  cases u with
  | notANumber => exact h rfl
  | infinity s =>
    rw [UnpackedFloat.pack, packedInfinity, unpackMantissa_packComponents] at hm
    exact absurd hm (by decide)
  | zero s =>
    rw [UnpackedFloat.pack, packedZero, unpackExponent_packComponents] at he
    exact absurd he (by decide)
  | finite s m e hpos =>
    unfold UnpackedFloat.pack at he hm
    dsimp only at he hm
    split at he
    · rename_i hbig
      rw [if_pos hbig, packedInfinity, unpackMantissa_packComponents] at hm
      exact absurd hm (by decide)
    · rename_i hsmall
      split at he
      · -- the exponent of a number is below that of infinity
        rw [unpackExponent_packComponents] at he
        have hnat := congrArg BitVec.toNat he
        rw [BitVec.toNat_ofNat] at hnat
        have hbits : 2 ^ Format.binary64.exponentBits = 2048 := rfl
        have hall : (-BitVec.ofNat Format.binary64.exponentBits 1).toNat = 2047 := rfl
        rw [hbits] at hsmall hnat
        rw [hall] at hnat
        omega
      · rw [unpackExponent_packComponents] at he
        exact absurd he (by decide)

variable {x y : Float}

/-- The parts of a defined float. -/
theorem unpack_ne_notANumber (h : x.isNaN = false) : x.toModel.unpack ≠ .notANumber := by
  intro hu
  have hx : x.isNaN = x.toModel.unpack.isNaN := rfl
  rw [hx, hu] at h
  cases h

/-- What is rounded is defined. -/
theorem roundWithAccuracy_ne (spec : Format) (s : Sign) (m : Nat) (e : Int) (acc : Accuracy) :
    roundWithAccuracy spec s m e acc ≠ .notANumber := by
  unfold roundWithAccuracy
  dsimp only
  split <;> exact UnpackedFloat.noConfusion

theorem normalize_ne (spec : Format) (m e : Int) (s : Sign) :
    UnpackedFloat.normalize spec m e s ≠ .notANumber := by
  unfold UnpackedFloat.normalize
  split
  · exact roundWithAccuracy_ne _ _ _ _ _
  · exact UnpackedFloat.noConfusion
  · exact roundWithAccuracy_ne _ _ _ _ _

/-- Of defined numbers at most one is infinite: then their sum is defined. -/
theorem add_ne {u v : UnpackedFloat} (hu : u ≠ .notANumber) (hv : v ≠ .notANumber)
    (h : Bounded u ∨ Bounded v) (spec : Format) : UnpackedFloat.add spec u v ≠ .notANumber := by
  rcases u with s | _ | s | ⟨s, m, e, hm⟩ <;> rcases v with t | _ | t | ⟨t, n, f, hn⟩
  case infinity.infinity => exact (h.elim id id).elim
  case zero.zero =>
    change (if s == t then UnpackedFloat.zero s else .zero .positive) ≠ .notANumber
    split <;> exact UnpackedFloat.noConfusion
  case finite.finite => exact normalize_ne _ _ _ _
  all_goals first | exact absurd rfl hu | exact absurd rfl hv | exact UnpackedFloat.noConfusion

theorem sub_ne {u v : UnpackedFloat} (hu : u ≠ .notANumber) (hv : v ≠ .notANumber)
    (h : Bounded u ∨ Bounded v) (spec : Format) : UnpackedFloat.sub spec u v ≠ .notANumber := by
  rcases u with s | _ | s | ⟨s, m, e, hm⟩ <;> rcases v with t | _ | t | ⟨t, n, f, hn⟩
  case infinity.infinity => exact (h.elim id id).elim
  case zero.zero =>
    change (if s == -t then UnpackedFloat.zero s else .zero .positive) ≠ .notANumber
    split <;> exact UnpackedFloat.noConfusion
  case finite.finite => exact normalize_ne _ _ _ _
  all_goals first | exact absurd rfl hu | exact absurd rfl hv | exact UnpackedFloat.noConfusion

/-- Two defined numbers, one of them finite, have a defined sum. -/
theorem isNaN_add (hx : x.isNaN = false) (hy : y.isNaN = false)
    (h : isFinite x = true ∨ isFinite y = true) : (x + y).isNaN = false :=
  isNaN_pack (add_ne (unpack_ne_notANumber hx) (unpack_ne_notANumber hy)
    (h.imp bounded_unpack bounded_unpack) _)

/-- Two defined numbers, one of them finite, have a defined difference. -/
theorem isNaN_sub (hx : x.isNaN = false) (hy : y.isNaN = false)
    (h : isFinite x = true ∨ isFinite y = true) : (x - y).isNaN = false :=
  isNaN_pack (sub_ne (unpack_ne_notANumber hx) (unpack_ne_notANumber hy)
    (h.imp bounded_unpack bounded_unpack) _)

/-- Whether parts are those of a finite number other than zero. -/
def isSolid : UnpackedFloat → Bool
  | .finite .. => true
  | _ => false

/-- A defined number times a finite one other than zero is defined. -/
theorem isNaN_mul (hx : x.isNaN = false) (hy : isSolid y.toModel.unpack = true) : (x * y).isNaN = false := by
  refine isNaN_pack ?_
  have hu := unpack_ne_notANumber hx
  generalize x.toModel.unpack = u at hu
  generalize y.toModel.unpack = v at hy
  -- Only zero times infinity would be no number, and a solid factor is neither.
  rcases v with _ | _ | _ | ⟨t, n, f, hn⟩
  · cases hy
  · cases hy
  · cases hy
  · rcases u with _ | _ | _ | _
    · exact UnpackedFloat.noConfusion
    · exact absurd rfl hu
    · exact UnpackedFloat.noConfusion
    · exact roundWithAccuracy_ne _ _ _ _ _

/-- A defined number divided by a finite one other than zero is defined. -/
theorem isNaN_div (hx : x.isNaN = false) (hy : isSolid y.toModel.unpack = true) : (x / y).isNaN = false := by
  refine isNaN_pack ?_
  have hu := unpack_ne_notANumber hx
  generalize x.toModel.unpack = u at hu
  generalize y.toModel.unpack = v at hy
  rcases v with _ | _ | _ | ⟨t, n, f, hn⟩
  · cases hy
  · cases hy
  · cases hy
  · rcases u with _ | _ | _ | _
    · exact UnpackedFloat.noConfusion
    · exact absurd rfl hu
    · exact UnpackedFloat.noConfusion
    · exact roundWithAccuracy_ne _ _ _ _ _

theorem isSolid_two : isSolid (2.0 : Float).toModel.unpack = true := by decide +kernel

theorem isSolid_thousand : isSolid (1000.0 : Float).toModel.unpack = true := by decide +kernel

end Kanban.Decimal
