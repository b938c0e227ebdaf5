import Kanban.Proofs.Decimal.Whole

/-!
# Kanban.Proofs.Decimal.Values — floats as numbers

A finite float stands for a number, and finite floats are ordered as their numbers are. A sum or a
product is reckoned exactly and then rounded, and rounding carries no number across a float: what is
not above the exact result is not above the float, and what is not below is not below. This is all
that is needed to see how far a float moves when one is added to it.

* `value`, `le_iff_value` — the number of a float, and the order.
* `Rounded`, `rounded_add`, `rounded_mul` — sums and products are rounded from the exact ones.
* `exists_whole` — whole numbers up to `2 ^ 53` are floats.
* `lt_add_one` — below `2 ^ 53` a float is less than its sum with one.
-/

namespace Kanban.Decimal

open Float.Model Float.Model.UnpackedFloat Rounding

variable {m n M N : Nat} {e f E F : Int} {s : Sign} {u w : UnpackedFloat} {x y z : Float} {v : ℚ}

/-! ## The number of a float -/

/-- A number with a sign. -/
def signed : Sign → ℚ → ℚ
  | .positive, v => v
  | .negative, v => -v

/-- The number that parts of a float stand for; zero if it is no finite one. -/
def valueOf : UnpackedFloat → ℚ
  | .finite s m e _ => signed s (m * 2 ^ e)
  | _ => 0

/-- The number that a float stands for; zero if it is no finite one. -/
def value (x : Float) : ℚ := valueOf x.toModel.unpack

/-- The parts of a finite float. -/
def Proper : UnpackedFloat → Prop
  | .zero _ => True
  | .finite _ m e _ => Canonical m e
  | _ => False

theorem proper_unpack (h : isFinite x = true) : Proper x.toModel.unpack := by
  have hb := bounded_unpack h
  rw [unpack_eq] at hb ⊢
  cases hr : read x with
  | undefined =>
    rw [hr] at hb
    exact hb.elim
  | infinite t =>
    rw [hr] at hb
    exact hb.elim
  | finite b =>
    unfold Reading.unpacked
    dsimp only
    split
    · trivial
    · rename_i hm
      exact canonical_of_read hr hm

/-- Mantissas and exponents are ordered as the numbers are that they stand for. -/
theorem lex_iff_le (hM : Shaped M E) (hN : Shaped N F) :
    F < E ∨ F = E ∧ N ≤ M ↔ (N : ℚ) * 2 ^ F ≤ M * 2 ^ E := by
  constructor
  · rintro (hlt | ⟨rfl, hle⟩)
    · -- the mantissa with the greater exponent is full
      have hleast := hN.least
      have hfull : (2 : ℚ) ^ 52 ≤ M := by exact_mod_cast hM.full.resolve_left (by omega)
      have hmost : (N : ℚ) ≤ 2 ^ 53 := by exact_mod_cast hN.lt.le
      have htwice := twice_le hlt
      have hp := two_zpow_pos F
      nlinarith
    · exact mul_le_mul_of_nonneg_right (by exact_mod_cast hle) (two_zpow_pos F).le
  · exact (rounds_self M E).above hM hN

theorem mantissa_pos (hm : 0 < m) (e : Int) : (0 : ℚ) < m * 2 ^ e :=
  mul_pos (by exact_mod_cast hm) (two_zpow_pos e)

/-- Parts of finite floats are ordered as their numbers are. -/
theorem le_iff_valueOf (hu : Proper u) (hw : Proper w) :
    u.le w = true ↔ valueOf u ≤ valueOf w := by
  rw [le_iff_rankOf]
  rcases u with _ | _ | s | ⟨s, m, e, hm⟩
  case infinity => exact hu.elim
  case notANumber => exact hu.elim
  all_goals
    rcases w with _ | _ | t | ⟨t, n, f, hn⟩
    case infinity => exact hw.elim
    case notANumber => exact hw.elim
  case zero.zero => simp [rankOf, valueOf]
  case zero.finite =>
    have hpos := mantissa_pos hn f
    cases t
    · simpa [rankOf, valueOf, signed, Prod.Lex.toLex_le_toLex] using hpos
    · simpa [rankOf, valueOf, signed, Prod.Lex.toLex_le_toLex] using hpos.le
  case finite.zero =>
    have hpos := mantissa_pos hm e
    cases s
    · simpa [rankOf, valueOf, signed, Prod.Lex.toLex_le_toLex] using hpos.le
    · simpa [rankOf, valueOf, signed, Prod.Lex.toLex_le_toLex] using hpos
  case finite.finite =>
    have hposm := mantissa_pos hm e
    have hposn := mantissa_pos hn f
    cases s <;> cases t
    · -- of two negative numbers the one with the lesser parts is the greater
      have hlex := lex_iff_le hu.toShaped hw.toShaped
      simp only [rankOf, valueOf, signed, neg_le_neg_iff, ← hlex]
      simp [Prod.Lex.toLex_le_toLex]
      omega
    · simp only [valueOf, signed]
      constructor
      · intro _
        linarith
      · simp [rankOf, Prod.Lex.toLex_le_toLex]
    · simp only [valueOf, signed]
      constructor
      · simp [rankOf, Prod.Lex.toLex_le_toLex]
      · intro hle
        linarith
    · have hlex := lex_iff_le hw.toShaped hu.toShaped
      simp only [rankOf, valueOf, signed, ← hlex]
      simp [Prod.Lex.toLex_le_toLex]

/-- Finite floats are ordered as their numbers are. -/
theorem le_iff_value (hx : isFinite x = true) (hy : isFinite y = true) :
    x ≤ y ↔ value x ≤ value y := by
  rw [le_iff_unpack]
  exact le_iff_valueOf (proper_unpack hx) (proper_unpack hy)

/-- Of defined floats one is below another iff the other is not at most the one. -/
theorem lt_iff_not_le (hx : x.isNaN = false) (hy : y.isNaN = false) : x < y ↔ ¬ y ≤ x := by
  obtain ⟨r, hr⟩ := exists_rank hx
  obtain ⟨q, hq⟩ := exists_rank hy
  simp [lt_iff_rank, le_iff_rank, hr, hq]

theorem lt_iff_value (hx : isFinite x = true) (hy : isFinite y = true) :
    x < y ↔ value x < value y := by
  rw [lt_iff_not_le (isNaN_of_isFinite hx) (isNaN_of_isFinite hy), le_iff_value hy hx, not_le]

theorem le_of_lt_float (hxy : x < y) : x ≤ y := by
  obtain ⟨r, hr, q, hq, hrq⟩ := lt_iff_rank.1 hxy
  exact le_iff_rank.2 ⟨r, hr, q, hq, hrq.le⟩

theorem lt_of_lt_le (hxy : x < y) (hyz : y ≤ z) : x < z := by
  obtain ⟨r, hr, q, hq, hrq⟩ := lt_iff_rank.1 hxy
  obtain ⟨q', hq', t, ht, hqt⟩ := le_iff_rank.1 hyz
  obtain rfl : q = q' := Option.some.inj (hq.symm.trans hq')
  exact lt_iff_rank.2 ⟨r, hr, t, ht, hrq.trans_le hqt⟩

theorem lt_of_le_lt (hxy : x ≤ y) (hyz : y < z) : x < z := by
  obtain ⟨r, hr, q, hq, hrq⟩ := le_iff_rank.1 hxy
  obtain ⟨q', hq', t, ht, hqt⟩ := lt_iff_rank.1 hyz
  obtain rfl : q = q' := Option.some.inj (hq.symm.trans hq')
  exact lt_iff_rank.2 ⟨r, hr, t, ht, hrq.trans_lt hqt⟩

/-- Negative infinity is below every finite float. -/
theorem infinity_lt (hx : isFinite x = true) : (-1.0 / 0.0 : Float) < x := by
  have hrank : rank? (-1.0 / 0.0) = some (toLex (-2, toLex (0, 0))) := by decide +kernel
  have hp := proper_unpack hx
  refine lt_iff_rank.2 ⟨_, hrank, ?_⟩
  unfold rank?
  generalize x.toModel.unpack = u at hp
  rcases u with _ | _ | t | ⟨⟨⟩, m, e, hm⟩
  · exact hp.elim
  · exact hp.elim
  all_goals simp [rankOf, Prod.Lex.toLex_lt_toLex]

theorem le_neg_iff (u w : UnpackedFloat) : u.le w.neg = true ↔ w.le u.neg = true := by
  rw [le_iff_rankOf, le_iff_rankOf]
  rcases u with ⟨⟨⟩⟩ | _ | ⟨⟨⟩⟩ | ⟨⟨⟩, m, e, hm⟩ <;> rcases w with ⟨⟨⟩⟩ | _ | ⟨⟨⟩⟩ | ⟨⟨⟩, n, f, hn⟩ <;>
    simp [UnpackedFloat.neg, rankOf, Prod.Lex.toLex_le_toLex]
  -- what is left: two finite numbers of one sign
  · omega
  · omega

theorem neg_le_iff (u w : UnpackedFloat) : u.neg.le w = true ↔ w.neg.le u = true := by
  have hneg (r : UnpackedFloat) : r.neg.neg = r := by rcases r with ⟨⟨⟩⟩ | _ | ⟨⟨⟩⟩ | ⟨⟨⟩, _⟩ <;> rfl
  simpa only [hneg] using le_neg_iff u.neg w.neg

/-- What is between two finite floats is finite. -/
theorem isFinite_of_between (hx : isFinite x = true) (hz : isFinite z = true) (hxy : x ≤ y)
    (hyz : y ≤ z) : isFinite y = true := by
  have hpx := proper_unpack hx
  have hpz := proper_unpack hz
  rw [le_iff_unpack, le_iff_rankOf] at hxy hyz
  refine isFinite_of_bounded ?_
  cases hy : y.toModel.unpack with
  | zero | finite => trivial
  | notANumber => simp [hy, rankOf] at hxy
  | infinity s =>
    -- an infinite float is beyond all finite ones
    rw [hy] at hxy hyz
    cases s with
    | positive =>
      rcases hu : z.toModel.unpack with _ | _ | t | ⟨⟨⟩, m, e, hm⟩ <;> rw [hu] at hyz hpz <;>
        simp [rankOf, Prod.Lex.toLex_le_toLex] at hyz
      exact hpz.elim
    | negative =>
      rcases hu : x.toModel.unpack with _ | _ | t | ⟨⟨⟩, m, e, hm⟩ <;> rw [hu] at hxy hpx <;>
        simp [rankOf, Prod.Lex.toLex_le_toLex] at hxy
      exact hpx.elim

/-! ## Rounding carries no number across a float -/

/-- Parts are what a number is rounded to: they are on no other side of a float than the number. -/
structure RoundedTo (u : UnpackedFloat) (v : ℚ) : Prop where
  above : ∀ w, Proper w → valueOf w ≤ v → w.le u = true
  below : ∀ w, Proper w → v ≤ valueOf w → u.le w = true

/-- A float is what a number is rounded to. -/
def Rounded (x : Float) (v : ℚ) : Prop := RoundedTo x.toModel.unpack v

theorem Rounded.le (h : Rounded x v) (hz : isFinite z = true) (hv : value z ≤ v) : z ≤ x :=
  le_iff_unpack.2 (h.above _ (proper_unpack hz) hv)

theorem Rounded.ge (h : Rounded x v) (hz : isFinite z = true) (hv : v ≤ value z) : x ≤ z :=
  le_iff_unpack.2 (h.below _ (proper_unpack hz) hv)

/-- A float is what its own number is rounded to. -/
theorem roundedTo_self (hu : Proper u) : RoundedTo u (valueOf u) where
  above := fun _ hw => (le_iff_valueOf hw hu).2
  below := fun _ hw => (le_iff_valueOf hu hw).2

/-- Rounding is the same on both sides of zero. -/
theorem RoundedTo.neg (h : RoundedTo u v) : RoundedTo u.neg (-v) := by
  have hproper (w : UnpackedFloat) (hw : Proper w) :
      Proper w.neg ∧ valueOf w.neg = -valueOf w := by
    rcases w with _ | _ | t | ⟨⟨⟩, n, f, hn⟩
    · exact hw.elim
    · exact hw.elim
    · exact ⟨trivial, neg_zero.symm⟩
    · exact ⟨hw, (neg_neg _).symm⟩
    · exact ⟨hw, rfl⟩
  constructor
  · intro w hw hle
    obtain ⟨hnw, hvalue⟩ := hproper w hw
    exact (le_neg_iff w u).2 (h.below _ hnw (by linarith))
  · intro w hw hle
    obtain ⟨hnw, hvalue⟩ := hproper w hw
    exact (neg_le_iff u w).2 (h.above _ hnw (by linarith))

/-- A number is rounded to zero if it is nearer to zero than to any other float. -/
theorem roundedTo_zero (hv : 0 ≤ v) (hsmall : v ≤ 2 ^ (-1074 : Int) / 2) (t : Sign) :
    RoundedTo (.zero t) v := by
  have hzero : Proper (.zero t) := trivial
  constructor
  · intro w hw hle
    refine (le_iff_valueOf hw hzero).2 ?_
    rcases w with _ | _ | r | ⟨⟨⟩, n, f, hn⟩
    · exact hw.elim
    · exact hw.elim
    · exact le_rfl
    · exact (neg_neg_of_pos (mantissa_pos hn f)).le
    · exact absurd (hle.trans hsmall) (half_least_lt hw.toShaped)
  · intro w hw hle
    exact (le_iff_valueOf hzero hw).2 (hv.trans hle)

theorem unpack_pack_neg (hM : Shaped M E) :
    (Float.Model.pack (.finite .negative M E hM.pos)).unpack =
      (Float.Model.pack (.finite .positive M E hM.pos)).unpack.neg := by
  by_cases hE : E ≤ 971
  · rw [unpack_pack (hM.canonical hE), unpack_pack (hM.canonical hE)]
    rfl
  · rw [unpack_pack_overflow hM (by omega), unpack_pack_overflow hM (by omega)]
    rfl

theorem zero_le_pack (hM : Shaped M E) (s : Sign) :
    (UnpackedFloat.zero s).le (Float.Model.pack (.finite .positive M E hM.pos)).unpack = true := by
  rw [le_iff_rankOf]
  by_cases hE : E ≤ 971
  · rw [unpack_pack (hM.canonical hE)]
    simp [rankOf, Prod.Lex.toLex_le_toLex]
  · rw [unpack_pack_overflow hM (by omega)]
    simp [rankOf, Prod.Lex.toLex_le_toLex]

/-- What a positive number is rounded to, be it infinity. -/
theorem roundedTo_pack_positive (hM : Shaped M E) (hr : Rounds M E v) :
    RoundedTo (Float.Model.pack (.finite .positive M E hM.pos)).unpack v := by
  have hpos : 0 < v := by
    have hp := two_zpow_pos E
    have hone : (1 : ℚ) ≤ M := by exact_mod_cast hM.pos
    have hlow := (half_le_lowest M E).trans hr.low
    nlinarith
  constructor
  · intro w hw hle
    rcases w with _ | _ | t | ⟨⟨⟩, n, f, hn⟩
    · exact hw.elim
    · exact hw.elim
    · exact zero_le_pack hM t
    · exact negative_le_positive hn hM
    · exact le_pack_above hw hM (hr.above hM hw.toShaped hle)
  · intro w hw hle
    rcases w with _ | _ | t | ⟨⟨⟩, n, f, hn⟩
    · exact hw.elim
    · exact hw.elim
    · exact absurd hle (not_le.2 hpos)
    · have hneg : valueOf (.finite .negative n f hn) < 0 := neg_neg_of_pos (mantissa_pos hn f)
      exact absurd (hpos.trans_le hle) (not_lt.2 hneg.le)
    · have hlex := hr.below hM hw.toShaped hle
      have hmost := hw.most
      rw [unpack_pack (hM.canonical (by omega)), le_iff_rankOf]
      simpa [rankOf, Prod.Lex.toLex_le_toLex] using hlex

/-- What a number is rounded to is a float, whatever the sign. -/
theorem roundedTo_pack (hM : Shaped M E) (hr : Rounds M E v) (s : Sign) :
    RoundedTo (Float.Model.pack (.finite s M E hM.pos)).unpack (signed s v) := by
  cases s with
  | positive => exact roundedTo_pack_positive hM hr
  | negative =>
    rw [unpack_pack_neg hM]
    exact (roundedTo_pack_positive hM hr).neg

theorem roundedTo_pack_zero (hv : 0 ≤ v) (hsmall : v ≤ 2 ^ (-1074 : Int) / 2) (s : Sign) :
    RoundedTo (Float.Model.pack (.zero s)).unpack (signed s v) := by
  rw [unpack_pack_zero]
  cases s with
  | positive => exact roundedTo_zero hv hsmall _
  | negative => exact (roundedTo_zero hv hsmall .positive).neg

/-! ## Sums and products -/

/-- A whole number of powers of two is rounded as a number. -/
theorem roundedTo_round (hm : 0 < m) (e : Int) (s : Sign) :
    RoundedTo (Float.Model.pack (UnpackedFloat.round .binary64 s m e)).unpack
      (signed s (m * 2 ^ e)) := by
  rcases round_cases hm e s with ⟨hsmall, hround⟩ | ⟨M, E, hM, hr, hround⟩
  · rw [hround]
    exact roundedTo_pack_zero (mantissa_pos hm e).le hsmall s
  · rw [hround]
    exact roundedTo_pack hM hr s

theorem roundedTo_normalize (a e : Int) (s : Sign) :
    RoundedTo (Float.Model.pack (UnpackedFloat.normalize .binary64 a e s)).unpack (a * 2 ^ e) := by
  unfold UnpackedFloat.normalize
  rcases lt_trichotomy a 0 with hlt | rfl | hgt
  · rw [compare_lt_iff_lt.2 hlt]
    have hround := roundedTo_round (show 0 < (-a).toNat by omega) e .negative
    have hvalue : signed .negative ((((-a).toNat : Nat) : ℚ) * 2 ^ e) = a * 2 ^ e := by
      have hcast : (((-a).toNat : Nat) : ℚ) = -a := by
        have hint : (((-a).toNat : Nat) : Int) = -a := by omega
        exact_mod_cast congrArg (Int.cast (R := ℚ)) hint
      rw [hcast]
      simp [signed]
    rwa [hvalue] at hround
  · rw [compare_eq_iff_eq.2 rfl, unpack_pack_zero]
    have hzero := roundedTo_zero le_rfl (by positivity) s
    rwa [Int.cast_zero, zero_mul]
  · rw [compare_gt_iff_gt.2 hgt]
    have hround := roundedTo_round (show 0 < a.toNat by omega) e .positive
    have hcast : ((a.toNat : Nat) : ℚ) = a := by
      have hint : ((a.toNat : Nat) : Int) = a := by omega
      exact_mod_cast congrArg (Int.cast (R := ℚ)) hint
    rwa [hcast] at hround

theorem cast_apply (s : Sign) (m : Nat) : ((s.apply (m : Int) : Int) : ℚ) = signed s m := by
  cases s
  · exact Int.cast_neg _
  · rfl

theorem signed_mul (s : Sign) (a b : ℚ) : signed s a * b = signed s (a * b) := by
  cases s
  · exact neg_mul a b
  · rfl

/-- The sum of two finite floats is rounded from the sum of their numbers. -/
theorem roundedTo_add (hu : Proper u) (hw : Proper w) :
    RoundedTo (Float.Model.pack (UnpackedFloat.add .binary64 u w)).unpack
      (valueOf u + valueOf w) := by
  rcases u with _ | _ | s | ⟨s, m, e, hm⟩
  case infinity => exact hu.elim
  case notANumber => exact hu.elim
  all_goals
    rcases w with _ | _ | t | ⟨t, n, f, hn⟩
    case infinity => exact hw.elim
    case notANumber => exact hw.elim
  case zero.zero =>
    have hzero := roundedTo_zero (le_refl (0 : ℚ)) (by positivity)
    change RoundedTo (Float.Model.pack (if s == t then .zero s else .zero .positive)).unpack (0 + 0)
    rw [add_zero]
    split
    · rw [unpack_pack_zero]
      exact hzero s
    · rw [unpack_pack_zero]
      exact hzero .positive
  case zero.finite =>
    change RoundedTo (Float.Model.pack (.finite t n f hn)).unpack (0 + _)
    rw [zero_add, unpack_pack hw]
    exact roundedTo_self hw
  case finite.zero =>
    change RoundedTo (Float.Model.pack (.finite s m e hm)).unpack (_ + 0)
    rw [add_zero, unpack_pack hu]
    exact roundedTo_self hu
  case finite.finite =>
    -- both are written with the lesser exponent
    have hround := roundedTo_normalize
      (s.apply ((decreaseExponent m e (min e f)).1 : Int) +
        t.apply ((decreaseExponent n f (min e f)).1 : Int)) (min e f) .positive
    have hfirst := decreaseExponent_of_le m (min_le_left e f)
    have hsecond := decreaseExponent_of_le n (min_le_right e f)
    rw [Int.cast_add, cast_apply, cast_apply, add_mul, signed_mul, signed_mul, hfirst, hsecond]
      at hround
    exact hround

theorem rounded_add (hx : isFinite x = true) (hy : isFinite y = true) :
    Rounded (x + y) (value x + value y) :=
  roundedTo_add (proper_unpack hx) (proper_unpack hy)

/-- The product of a finite float with a number that uses all digits of its mantissa is rounded from
the product of their numbers. -/
theorem rounded_mul {b : ℚ} (hx : isFinite x = true) (hy : Exact y b) :
    Rounded (x * y) (value x * b) := by
  obtain ⟨n, f, hn, hy, hfull, rfl⟩ := hy
  have hmul : (x * y).toModel =
      Float.Model.pack (UnpackedFloat.mul .binary64 x.toModel.unpack y.toModel.unpack) := rfl
  have hp := proper_unpack hx
  unfold Rounded value
  rw [hmul, hy]
  generalize x.toModel.unpack = u at hp
  rcases u with _ | _ | s | ⟨s, m, e, hm⟩
  · exact hp.elim
  · exact hp.elim
  · change RoundedTo (Float.Model.pack (.zero (s * .positive))).unpack (0 * _)
    rw [zero_mul, unpack_pack_zero]
    exact roundedTo_zero (le_refl (0 : ℚ)) (by positivity) _
  · have hsign : s * Sign.positive = s := by cases s <;> rfl
    have hgiven : Given (m * n) (e + f) .exact (m * 2 ^ e * (n * 2 ^ f)) :=
      given_mul hm hn (hfull.trans (Nat.le_mul_of_pos_left n hm))
    have hpos := mul_pos (mantissa_pos hm e) (mantissa_pos hn f)
    change RoundedTo (Float.Model.pack (roundWithAccuracy .binary64 (s * .positive) (m * n) (e + f)
      .exact)).unpack (signed s _ * _)
    rw [hsign, signed_mul]
    rcases hgiven.rounded s with ⟨hsmall, hround⟩ | ⟨M, E, hM, hr, hround⟩
    · rw [hround]
      exact roundedTo_pack_zero hpos.le hsmall s
    · rw [hround]
      exact roundedTo_pack hM hr s

/-! ## Whole numbers -/

theorem isFinite_floatOf_value (s : Sign) (hc : Canonical M E) :
    isFinite (floatOf s hc) = true ∧ value (floatOf s hc) = signed s (M * 2 ^ E) := by
  refine ⟨isFinite_floatOf s hc, ?_⟩
  unfold value
  rw [unpack_floatOf]
  rfl

/-- A positive whole number of at most as many bits as a mantissa has is a mantissa and a power. -/
theorem exists_canonical (h0 : 0 < n) (hn : n ≤ 2 ^ 53) :
    ∃ M E, ∃ _ : Canonical M E, (M : ℚ) * 2 ^ E = n := by
  rcases Nat.lt_or_eq_of_le hn with hlt | rfl
  · obtain ⟨M, E, hM, hu, -, hvalue⟩ := exact_toFloat h0 hlt
    have hp := proper_unpack (isFinite_of_bounded (by rw [hu]; trivial))
    rw [hu] at hp
    exact ⟨M, E, hp, hvalue⟩
  · refine ⟨2 ^ 52, 1, ⟨by norm_num, by norm_num, by norm_num, by norm_num, .inr le_rfl⟩, ?_⟩
    norm_num

/-- A whole number of at most as many bits as a mantissa has is the number of a float. -/
theorem exists_whole {z : Int} (hz : z.natAbs ≤ 2 ^ 53) : ∃ x, isFinite x = true ∧ value x = z := by
  rcases lt_trichotomy z 0 with hlt | rfl | hgt
  · obtain ⟨M, E, hc, hvalue⟩ := exists_canonical (by omega) hz
    obtain ⟨hfinite, hfloat⟩ := isFinite_floatOf_value .negative hc
    refine ⟨_, hfinite, hfloat.trans ?_⟩
    rw [hvalue, Nat.cast_natAbs, abs_of_neg hlt, Int.cast_neg]
    exact neg_neg _
  · refine ⟨Float.ofModel (Float.Model.pack (.zero .positive)), isFinite_of_bounded ?_, ?_⟩
    · rw [unpack_pack_zero]
      trivial
    · unfold value
      rw [unpack_pack_zero]
      exact Int.cast_zero.symm
  · obtain ⟨M, E, hc, hvalue⟩ := exists_canonical (by omega) hz
    obtain ⟨hfinite, hfloat⟩ := isFinite_floatOf_value .positive hc
    refine ⟨_, hfinite, hfloat.trans ?_⟩
    rw [hvalue, Nat.cast_natAbs, abs_of_pos hgt]
    rfl

/-! ## One more -/

theorem exact_one : Exact 1.0 1 := .of_isTen (k := 0) (by decide +kernel)

theorem exact_thousand : Exact 1000.0 1000 := by
  have h := Exact.of_isTen (k := 3) (x := 1000.0) (by decide +kernel)
  norm_num at h
  exact h

theorem Exact.finite {a : ℚ} (h : Exact x a) : isFinite x = true ∧ value x = a := by
  obtain ⟨m, e, hm, hu, -, rfl⟩ := h
  constructor
  · exact isFinite_of_bounded (by rw [hu]; trivial)
  · unfold value
    rw [hu]
    rfl

/-- Where whole numbers are floats, a float is less than its sum with one. -/
theorem lt_add_one (hx : isFinite x = true) (hlow : -2 ^ 53 ≤ value x) (hhigh : value x < 2 ^ 53) :
    x < x + 1.0 := by
  -- the next whole number is a float, and the sum is not below it
  have hz : (⌊value x⌋ + 1).natAbs ≤ 2 ^ 53 := by
    have hfloor : -2 ^ 53 ≤ ⌊value x⌋ := Int.le_floor.2 (by push_cast; exact hlow)
    have hceil : ⌊value x⌋ < 2 ^ 53 := Int.floor_lt.2 (by push_cast; exact hhigh)
    omega
  obtain ⟨y, hy, hvalue⟩ := exists_whole hz
  push_cast at hvalue
  have hfloor := Int.floor_le (value x)
  have hnext := Int.lt_floor_add_one (value x)
  have hxy : x < y := (lt_iff_value hx hy).2 (by rw [hvalue]; exact hnext)
  have hys : y ≤ x + 1.0 := by
    refine (rounded_add hx exact_one.finite.1).le hy ?_
    rw [hvalue, exact_one.finite.2]
    linarith
  exact lt_of_lt_le hxy hys

/-- Adding one does not get beyond the next whole number. -/
theorem add_one_le {z : Int} (hx : isFinite x = true) (hlow : -2 ^ 53 ≤ value x) (hle : value x ≤ z)
    (hz : z < 2 ^ 53) : isFinite (x + 1.0) = true ∧ value (x + 1.0) ≤ (z + 1 : Int) := by
  have hlow' : -2 ^ 53 ≤ z := by exact_mod_cast hlow.trans hle
  have hhigh : value x < 2 ^ 53 := hle.trans_lt (by exact_mod_cast hz)
  obtain ⟨y, hy, hvalue⟩ := exists_whole (z := z + 1) (by omega)
  have hsum : x + 1.0 ≤ y := by
    refine (rounded_add hx exact_one.finite.1).ge hy ?_
    rw [hvalue, exact_one.finite.2]
    push_cast
    linarith
  have hfinite := isFinite_of_between hx hy (le_of_lt_float (lt_add_one hx hlow hhigh)) hsum
  exact ⟨hfinite, hvalue ▸ (le_iff_value hfinite hy).1 hsum⟩

/-- Scaling by a thousand does not get beyond a whole number that the exact product is within. -/
theorem mul_thousand_within {z : Int} (hx : isFinite x = true) (hz : z.natAbs ≤ 2 ^ 53)
    (hwithin : |1000 * value x| ≤ z) :
    isFinite (x * 1000.0) = true ∧ |value (x * 1000.0)| ≤ z := by
  obtain ⟨hlow, hhigh⟩ := abs_le.1 hwithin
  obtain ⟨y, hy, hvalue⟩ := exists_whole hz
  obtain ⟨w, hw, hneg⟩ := exists_whole (z := -z) (by omega)
  have hround := rounded_mul hx exact_thousand
  have hle : x * 1000.0 ≤ y := hround.ge hy (by rw [hvalue]; linarith)
  have hge : w ≤ x * 1000.0 := hround.le hw (by rw [hneg]; push_cast; linarith)
  have hfinite := isFinite_of_between hw hy hge hle
  refine ⟨hfinite, abs_le.2 ⟨?_, ?_⟩⟩
  · have hvalue' := (le_iff_value hw hfinite).1 hge
    rw [hneg] at hvalue'
    exact_mod_cast hvalue'
  · exact hvalue ▸ (le_iff_value hfinite hy).1 hle

end Kanban.Decimal
