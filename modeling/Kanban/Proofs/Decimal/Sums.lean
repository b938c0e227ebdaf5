import Kanban.Proofs.Decimal.Order
import Kanban.Proofs.Decimal.Defined

/-!
# Kanban.Proofs.Decimal.Sums — adding what is positive lowers nothing

A number that is rounded is rounded to zero or to a float in whose interval it lies, and the intervals
of floats are ordered as the floats are. So what a number is rounded to is on no other side of a float
than the number itself, and a sum with something positive is not below what it is added to.

* `Given.rounded`, `round_cases` — every number is rounded to a float in whose interval it lies.
* `Rounds.above`, `Rounds.below` — a float on one side of a number is on that side of what the number
  is rounded to.
* `le_add` — a sum with a positive number is at least as high.
-/

namespace Kanban.Decimal

namespace Rounding

open Float.Model Float.Model.UnpackedFloat

variable {m n M N : Nat} {e E F : Int} {acc : Accuracy} {v : ℚ}

/-! ## Rounding in general -/

/-- A mantissa and an exponent as floats would have them if no number were too great. -/
structure Shaped (m : Nat) (e : Int) : Prop where
  pos : 0 < m
  lt : m < 2 ^ 53
  least : -1074 ≤ e
  full : e = -1074 ∨ 2 ^ 52 ≤ m

theorem Canonical.toShaped (h : Canonical m e) : Shaped m e := ⟨h.pos, h.lt, h.least, h.full⟩

theorem Shaped.canonical (h : Shaped m e) (he : e ≤ 971) : Canonical m e :=
  ⟨h.pos, h.lt, h.least, he, h.full⟩

/-- A whole number that is less than one above another is not above it. -/
theorem le_of_le_half {a b : Nat} (h : (a : ℚ) ≤ b + 1 / 2) : a ≤ b := by
  have hlt : (a : ℚ) < (b + 1 : Nat) := by
    push_cast
    linarith
  exact Nat.le_of_lt_succ (by exact_mod_cast hlt)

/-- What is nearest to a number in units of a power of two is a float in whose interval it lies,
unless the number is below a power of two where floats are closer. -/
theorem Nearest.rounds (h : Nearest (v / 2 ^ e) n) (hv : n = 2 ^ 52 → e ≠ -1074 → n * 2 ^ e ≤ v) :
    Rounds n e v := by
  have hp := two_zpow_pos e
  have hlow : (n - 1 / 2) * 2 ^ e ≤ v := (le_div_iff₀ hp).1 h.low
  have hhigh : v ≤ (n + 1 / 2) * 2 ^ e := (div_le_iff₀ hp).1 h.high
  refine ⟨?_, hhigh, fun hodd => ?_⟩
  · unfold lowest
    split
    · rename_i hn
      have hle := hv hn.1 hn.2
      nlinarith
    · exact hlow
  · -- at an end the mantissa would be even
    have hn : ¬ (n = 2 ^ 52 ∧ e ≠ -1074) := by
      rintro ⟨rfl, -⟩
      norm_num at hodd
    have hnot (ht : v / 2 ^ e = n - 1 / 2 ∨ v / 2 ^ e = n + 1 / 2) : False := by
      have heven := h.even ht
      omega
    unfold lowest highest
    rw [if_neg hn]
    constructor
    · refine lt_of_le_of_ne hlow fun heq => hnot (.inl ?_)
      rw [← heq, mul_div_cancel_right₀ _ hp.ne']
    · refine lt_of_le_of_ne hhigh fun heq => hnot (.inr ?_)
      rw [heq, mul_div_cancel_right₀ _ hp.ne']

/-- The mantissa that a number is shifted to is full, unless the exponent is the least. -/
theorem Given.wide (h : Given m e acc v) :
    v < 2 ^ 53 * 2 ^ target m e ∧ (target m e = -1074 ∨ 2 ^ 52 * 2 ^ target m e ≤ v) := by
  have hpow (k : Nat) (t : Int) : (2 : ℚ) ^ k * 2 ^ t = 2 ^ ((k : Int) + t) := by
    rw [zpow_add₀ (by norm_num : (2 : ℚ) ≠ 0), zpow_natCast]
  have hmono {a b : Int} (hab : a ≤ b) : (2 : ℚ) ^ a ≤ 2 ^ b :=
    zpow_le_zpow_right₀ (by norm_num) hab
  rw [hpow, hpow]
  constructor
  · refine lt_of_lt_of_le h.lt (hmono ?_)
    unfold target
    push_cast
    omega
  · by_cases ht : target m e = -1074
    · exact .inl ht
    · have hm : m ≠ 0 := by
        rintro rfl
        have hzero := h.zero rfl
        unfold target at ht
        rw [Nat.log2_zero] at ht
        omega
      refine .inr (le_trans (hmono ?_) (h.le hm))
      unfold target at ht ⊢
      push_cast
      omega

/-- What a number is rounded to: zero, or a float in whose interval it lies. -/
theorem Given.rounded (h : Given m e acc v) (s : Sign) :
    (v ≤ 2 ^ (-1074 : Int) / 2 ∧ roundWithAccuracy .binary64 s m e acc = .zero s) ∨
      ∃ M E, ∃ hM : Shaped M E, Rounds M E v ∧
        roundWithAccuracy .binary64 s m e acc = .finite s M E hM.pos := by
  obtain ⟨em, hshift, hem⟩ := h.shift
  have hnear := nearest_rounded hem
  obtain ⟨hhigh, hwide⟩ := h.wide
  have hleast : -1074 ≤ target m e := le_max_right _ _
  have hp := two_zpow_pos (target m e)
  unfold roundWithAccuracy
  rw [hshift]
  generalize target m e = t at *
  dsimp only
  generalize em.roundedMantissa = n at *
  have hlow : ((n : ℚ) - 1 / 2) * 2 ^ t ≤ v := (le_div_iff₀ hp).1 hnear.low
  have hup : v ≤ ((n : ℚ) + 1 / 2) * 2 ^ t := (div_le_iff₀ hp).1 hnear.high
  -- the mantissa is rounded to one bit more at most
  have hn : n ≤ 2 ^ 53 := by
    have hlt : ((n : ℚ) - 1 / 2) < 2 ^ 53 := lt_of_mul_lt_mul_right (hlow.trans_lt hhigh) hp.le
    refine le_of_le_half ?_
    push_cast
    linarith
  have hfull : t = -1074 ∨ 2 ^ 52 ≤ n := by
    refine hwide.imp_right fun hw => ?_
    have hle : (2 : ℚ) ^ 52 ≤ n + 1 / 2 := le_of_mul_le_mul_right (hw.trans hup) hp
    exact le_of_le_half (by exact_mod_cast hle)
  rcases Nat.eq_zero_or_pos n with rfl | hpos
  · -- nothing is left of the mantissa
    have ht : t = -1074 := hfull.resolve_right (by norm_num)
    refine .inl ⟨?_, ?_⟩
    · rw [← ht]
      push_cast at hup
      linarith
    · simp only [shift_id (by norm_num : 0 < 2 ^ 53) hleast]
      exact dif_pos trivial
  · refine .inr ?_
    rcases Nat.lt_or_eq_of_le hn with hlt | rfl
    · have hM : Shaped n t := ⟨hpos, hlt, hleast, hfull⟩
      refine ⟨n, t, hM, hnear.rounds fun hn ht => ?_, ?_⟩
      · subst hn
        push_cast
        exact hwide.resolve_left ht
      · simp only [shift_id hlt hleast]
        exact dif_neg hpos.ne'
    · -- the mantissa has become too wide
      have hM : Shaped (2 ^ 52) (t + 1) := ⟨by norm_num, by norm_num, by omega, .inr le_rfl⟩
      have hdouble : (2 : ℚ) ^ (t + 1) = 2 * 2 ^ t := by
        rw [zpow_add_one₀ (by norm_num : (2 : ℚ) ≠ 0), mul_comm]
      refine ⟨2 ^ 52, t + 1, hM, ⟨?_, ?_, fun hodd => ?_⟩, ?_⟩
      · unfold lowest
        rw [if_pos ⟨rfl, by omega⟩, hdouble]
        push_cast at hlow ⊢
        linarith
      · unfold highest
        rw [hdouble]
        push_cast at hup ⊢
        nlinarith
      · norm_num at hodd
      · simp only [shift_wide hleast]
        exact dif_neg (by norm_num)

/-! ## Intervals are ordered as floats are -/

theorem twice_le {E F : Int} (h : E < F) : (2 : ℚ) * 2 ^ E ≤ 2 ^ F := by
  rw [← zpow_one_add₀ (by norm_num : (2 : ℚ) ≠ 0)]
  exact zpow_le_zpow_right₀ (by norm_num) (by omega)

/-- A float that is not above a number is not above what the number is rounded to. -/
theorem Rounds.above (hr : Rounds M E v) (hM : Shaped M E) (hN : Shaped N F)
    (hv : N * 2 ^ F ≤ v) : F < E ∨ F = E ∧ N ≤ M := by
  have hp := two_zpow_pos E
  have hhigh : (N : ℚ) * 2 ^ F ≤ (M + 1 / 2) * 2 ^ E := hv.trans hr.high
  rcases lt_trichotomy F E with hlt | rfl | hlt
  · exact .inl hlt
  · refine .inr ⟨rfl, ?_⟩
    exact le_of_le_half (le_of_mul_le_mul_right hhigh hp)
  · -- a float with a greater exponent is above the whole interval
    have hleast := hM.least
    have hfull : (2 : ℚ) ^ 52 ≤ N := by exact_mod_cast hN.full.resolve_left (by omega)
    have hmost : (M : ℚ) + 1 ≤ 2 ^ 53 := by exact_mod_cast hM.lt
    have htwice := twice_le hlt
    have hq := two_zpow_pos F
    nlinarith

/-- A float that is not below a number is not below what the number is rounded to. -/
theorem Rounds.below (hr : Rounds M E v) (hM : Shaped M E) (hN : Shaped N F)
    (hv : v ≤ N * 2 ^ F) : E < F ∨ E = F ∧ M ≤ N := by
  have hp := two_zpow_pos E
  rcases lt_trichotomy E F with hlt | rfl | hlt
  · exact .inl hlt
  · refine .inr ⟨rfl, ?_⟩
    have hlow : ((M : ℚ) - 1 / 2) * 2 ^ E ≤ N * 2 ^ E :=
      ((half_le_lowest M E).trans hr.low).trans hv
    have hle : (M : ℚ) - 1 / 2 ≤ N := le_of_mul_le_mul_right hlow hp
    exact le_of_le_half (by linarith)
  · -- a float with a lesser exponent is below the whole interval
    have hleast := hN.least
    have hfull : (2 : ℚ) ^ 52 ≤ M := by exact_mod_cast hM.full.resolve_left (by omega)
    have hmost : (N : ℚ) + 1 ≤ 2 ^ 53 := by exact_mod_cast hN.lt
    have htwice := twice_le hlt
    have hq := two_zpow_pos F
    have hlow := hr.low.trans hv
    have hupper : (N : ℚ) * 2 ^ F ≤ (2 ^ 52 - 1 / 2) * 2 ^ E := by nlinarith
    have hstrict : (2 ^ 52 - 1 / 4 : ℚ) * 2 ^ E ≤ lowest M E := by
      unfold lowest
      split
      · rename_i h52
        rw [h52.1]
        push_cast
        exact le_rfl
      · rename_i h52
        have hne : M ≠ 2 ^ 52 := fun heq => h52 ⟨heq, by omega⟩
        have hgt : 2 ^ 52 + 1 ≤ M := by
          have hge := hM.full.resolve_left (by omega)
          omega
        have hgt' : (2 : ℚ) ^ 52 + 1 ≤ M := by exact_mod_cast hgt
        nlinarith
    nlinarith

/-! ## Whole numbers of powers of two -/

/-- Making the exponent less does not change the number. -/
theorem decreaseExponent_value (m : Nat) (e t : Int) :
    ((decreaseExponent m e t).1 : ℚ) * 2 ^ (decreaseExponent m e t).2 = m * 2 ^ e := by
  unfold decreaseExponent
  dsimp only
  rw [Nat.shiftLeft_eq, zpow_sub₀ (by norm_num : (2 : ℚ) ≠ 0), zpow_natCast]
  push_cast
  field_simp

theorem log2_shiftLeft (hm : 0 < m) (k : Nat) : (m <<< k).log2 = m.log2 + k := by
  induction k with
  | zero => rfl
  | succ k ih =>
    have hne : m <<< k ≠ 0 := by
      rw [Nat.shiftLeft_eq]
      exact (Nat.mul_pos hm (Nat.two_pow_pos k)).ne'
    rw [Nat.shiftLeft_succ, Nat.log2_two_mul hne, ih, Nat.add_assoc]

/-- A whole number of powers of two is rounded to zero, or to a float in whose interval it lies. -/
theorem round_cases (hm : 0 < m) (e : Int) (s : Sign) :
    ((m : ℚ) * 2 ^ e ≤ 2 ^ (-1074 : Int) / 2 ∧ UnpackedFloat.round .binary64 s m e = .zero s) ∨
      ∃ M E, ∃ hM : Shaped M E, Rounds M E (m * 2 ^ e) ∧
        UnpackedFloat.round .binary64 s m e = .finite s M E hM.pos := by
  have hgiven : Given (decreaseExponent m e (target m e)).1 (decreaseExponent m e (target m e)).2
      .exact (m * 2 ^ e) := by
    refine ⟨?_, ?_, fun h0 => ?_⟩
    · change _ = ((decreaseExponent m e (target m e)).1 : ℚ)
      rw [div_eq_iff (two_zpow_pos _).ne', decreaseExponent_value]
    · unfold decreaseExponent target
      dsimp only
      rw [log2_shiftLeft hm]
      omega
    · have hshift : m <<< (e - target m e).toNat = 0 := h0
      rw [Nat.shiftLeft_eq] at hshift
      have hpos := Nat.mul_pos hm (Nat.two_pow_pos (e - target m e).toNat)
      omega
  exact hgiven.rounded s

end Rounding

/-! ## Ranks of sums -/

open Float.Model Float.Model.UnpackedFloat Rounding

variable {M N : Nat} {E F : Int} {s : Sign}

theorem unpack_pack_infinity (s : Sign) :
    (Float.Model.pack (.infinity s)).unpack = .infinity s := by
  cases s <;> rfl

/-- What is too great for a float becomes infinite. -/
theorem unpack_pack_overflow (h : Shaped M E) (he : 971 < E) (s : Sign) :
    (Float.Model.pack (.finite s M E h.pos)).unpack = .infinity s := by
  have hbias : (E + (Format.binary64.exponentBias : Int) + (52 : Nat)).toNat = (E + 1075).toNat := by
    congr 1
    rw [Int.add_assoc]
    rfl
  have hbits : UnpackedFloat.pack .binary64 (.finite s M E h.pos) =
      UnpackedFloat.pack .binary64 (.infinity s) := by
    unfold UnpackedFloat.pack
    dsimp only
    rw [hbias, if_pos (by change 2048 ≤ _; omega)]
  have hpack : Float.Model.pack (.finite s M E h.pos) = Float.Model.pack (.infinity s) := by
    unfold Float.Model.pack
    simp only [hbits]
  rw [hpack, unpack_pack_infinity]

theorem unpack_pack_zero (s : Sign) : (Float.Model.pack (.zero s)).unpack = .zero s := by
  cases s <;> rfl

/-- A positive float is at most what is made of greater parts. -/
theorem le_pack_above (hN : Canonical N F) (hM : Shaped M E) (h : F < E ∨ F = E ∧ N ≤ M) :
    (UnpackedFloat.finite .positive N F hN.pos).le
      (Float.Model.pack (.finite .positive M E hM.pos)).unpack = true := by
  rw [le_iff_rankOf]
  by_cases he : E ≤ 971
  · rw [unpack_pack (hM.canonical he)]
    simpa [rankOf, Prod.Lex.toLex_le_toLex] using h
  · rw [unpack_pack_overflow hM (by omega)]
    simp [rankOf, Prod.Lex.toLex_le_toLex]

/-- A negative float is at most what is made of lesser parts with the same sign. -/
theorem le_pack_below (hN : Canonical N F) (hM : Shaped M E) (h : E < F ∨ E = F ∧ M ≤ N) :
    (UnpackedFloat.finite .negative N F hN.pos).le
      (Float.Model.pack (.finite .negative M E hM.pos)).unpack = true := by
  have hmost := hN.most
  rw [le_iff_rankOf, unpack_pack (hM.canonical (by omega))]
  simp [rankOf, Prod.Lex.toLex_le_toLex]
  omega

theorem negative_le_zero (hN : 0 < N) (s : Sign) :
    (UnpackedFloat.finite .negative N F hN).le (Float.Model.pack (.zero s)).unpack = true := by
  rw [le_iff_rankOf, unpack_pack_zero]
  simp [rankOf, Prod.Lex.toLex_le_toLex]

theorem negative_le_positive (hN : 0 < N) (hM : Shaped M E) :
    (UnpackedFloat.finite .negative N F hN).le
      (Float.Model.pack (.finite .positive M E hM.pos)).unpack = true := by
  rw [le_iff_rankOf]
  by_cases he : E ≤ 971
  · rw [unpack_pack (hM.canonical he)]
    simp [rankOf, Prod.Lex.toLex_le_toLex]
  · rw [unpack_pack_overflow hM (by omega)]
    simp [rankOf, Prod.Lex.toLex_le_toLex]

/-! ## Sums with a positive number -/

section Sums

variable {m n : Nat} {e f : Int}

theorem decreaseExponent_of_le (m : Nat) {e t : Int} (h : t ≤ e) :
    ((decreaseExponent m e t).1 : ℚ) * 2 ^ t = m * 2 ^ e := by
  have hsnd : (decreaseExponent m e t).2 = t := by
    unfold decreaseExponent
    dsimp only
    omega
  have hvalue := decreaseExponent_value m e t
  rwa [hsnd] at hvalue

/-- No float other than zero is so small as what is rounded to zero. -/
theorem half_least_lt (h : Shaped m e) : ¬ (m : ℚ) * 2 ^ e ≤ 2 ^ (-1074 : Int) / 2 := by
  have hp := two_zpow_pos (-1074)
  have hle : (2 : ℚ) ^ (-1074 : Int) ≤ 2 ^ e := zpow_le_zpow_right₀ (by norm_num) h.least
  have hm : (1 : ℚ) ≤ m := by exact_mod_cast h.pos
  generalize (2 : ℚ) ^ (-1074 : Int) = q at hp hle
  nlinarith

/-- A finite number is at most its sum with something positive. -/
theorem le_add_finite (hc : Canonical m e) (hn : 0 < n) (f : Int) (s : Sign) :
    (UnpackedFloat.finite s m e hc.pos).le (Float.Model.pack (UnpackedFloat.add .binary64
      (.finite s m e hc.pos) (.finite .positive n f hn))).unpack = true := by
  obtain ⟨a, ha⟩ : ∃ a, (decreaseExponent m e (min e f)).1 = a := ⟨_, rfl⟩
  obtain ⟨b, hb⟩ : ∃ b, (decreaseExponent n f (min e f)).1 = b := ⟨_, rfl⟩
  have hadd : UnpackedFloat.add .binary64 (.finite s m e hc.pos) (.finite .positive n f hn) =
      UnpackedFloat.normalize .binary64 (s.apply a + b) (min e f) .positive := by
    rw [← ha, ← hb]
    rfl
  have hvalue : (a : ℚ) * 2 ^ min e f = m * 2 ^ e := by
    rw [← ha]
    exact decreaseExponent_of_le m (min_le_left e f)
  have hp := two_zpow_pos (min e f)
  have hbpos : 0 < b := by
    have hq := two_zpow_pos f
    have hother := decreaseExponent_of_le n (min_le_right e f)
    rw [hb] at hother
    have hpos : (0 : ℚ) < b * 2 ^ min e f := by
      rw [hother]
      exact mul_pos (by exact_mod_cast hn) hq
    exact_mod_cast (pos_iff_pos_of_mul_pos hpos).2 hp
  rw [hadd]
  generalize min e f = t at *
  cases s with
  | positive =>
    -- the sum is above the number, and so is what it is rounded to
    have hsum : Sign.positive.apply (a : Int) + b = ((a + b : Nat) : Int) := rfl
    have hgt : compare ((a + b : Nat) : Int) 0 = .gt := compare_gt_iff_gt.2 (by omega)
    have hle : (m : ℚ) * 2 ^ e ≤ ((a + b : Nat) : ℚ) * 2 ^ t := by
      rw [← hvalue]
      exact mul_le_mul_of_nonneg_right (by exact_mod_cast Nat.le_add_right a b) hp.le
    rw [hsum, UnpackedFloat.normalize, hgt]
    dsimp only [Int.toNat_natCast]
    rcases round_cases (show 0 < a + b by omega) t .positive with
      ⟨hzero, -⟩ | ⟨M, E, hM, hr, hround⟩
    · exact absurd (hle.trans hzero) (half_least_lt hc.toShaped)
    · rw [hround]
      exact le_pack_above hc hM (hr.above hM hc.toShaped hle)
  | negative =>
    have hsum : Sign.negative.apply (a : Int) + b = -(a : Int) + b := rfl
    rw [hsum, UnpackedFloat.normalize]
    rcases lt_trichotomy (-(a : Int) + b) 0 with hlt | heq | hgt
    · -- the sum is still negative, and nearer to zero
      have hnat : (-(-(a : Int) + b)).toNat = a - b := by omega
      have hle : ((a - b : Nat) : ℚ) * 2 ^ t ≤ (m : ℚ) * 2 ^ e := by
        rw [← hvalue]
        exact mul_le_mul_of_nonneg_right (by exact_mod_cast Nat.sub_le a b) hp.le
      rw [compare_lt_iff_lt.2 hlt]
      dsimp only
      rw [hnat]
      rcases round_cases (show 0 < a - b by omega) t .negative with
        ⟨-, hround⟩ | ⟨M, E, hM, hr, hround⟩
      · rw [hround]
        exact negative_le_zero hc.pos .negative
      · rw [hround]
        exact le_pack_below hc hM (hr.below hM hc.toShaped hle)
    · rw [compare_eq_iff_eq.2 heq]
      exact negative_le_zero hc.pos .positive
    · rw [compare_gt_iff_gt.2 hgt]
      dsimp only
      rcases round_cases (show 0 < (-(a : Int) + b).toNat by omega) t .positive with
        ⟨-, hround⟩ | ⟨M, E, hM, hr, hround⟩
      · rw [hround]
        exact negative_le_zero hc.pos .positive
      · rw [hround]
        exact negative_le_positive hc.pos hM

variable {x y z : Float}

/-- Whether parts are those of a finite number above zero. -/
def isPositive : UnpackedFloat → Bool
  | .finite .positive _ _ _ => true
  | _ => false

theorem le_iff_unpack : x ≤ y ↔ x.toModel.unpack.le y.toModel.unpack = true := decide_eq_true_iff

theorem le_self (h : x.isNaN = false) : x ≤ x := by
  obtain ⟨r, hr⟩ := exists_rank h
  exact le_iff_rank.2 ⟨r, hr, r, hr, le_rfl⟩

/-- Of two defined floats one is at most the other. -/
theorem le_of_not_le (hx : x.isNaN = false) (hy : y.isNaN = false) (h : ¬ x ≤ y) : y ≤ x := by
  obtain ⟨r, hr⟩ := exists_rank hx
  obtain ⟨q, hq⟩ := exists_rank hy
  have hlt : q < r := by simpa [le_iff_rank, hr, hq] using h
  exact le_iff_rank.2 ⟨q, hq, r, hr, hlt.le⟩

theorem le_of_le_of_le (hxy : x ≤ y) (hyz : y ≤ z) : x ≤ z := by
  obtain ⟨r, hr, s, hs, hrs⟩ := le_iff_rank.1 hxy
  obtain ⟨s', hs', t, ht, hst⟩ := le_iff_rank.1 hyz
  obtain rfl : s = s' := Option.some.inj (hs.symm.trans hs')
  exact le_iff_rank.2 ⟨r, hr, t, ht, hrs.trans hst⟩

/-- A defined number is at most its sum with a finite positive one. -/
theorem le_add (hx : x.isNaN = false) (hy : isPositive y.toModel.unpack = true) : x ≤ x + y := by
  have hsum : (x + y).toModel =
      Float.Model.pack (UnpackedFloat.add .binary64 x.toModel.unpack y.toModel.unpack) := rfl
  rw [le_iff_unpack, hsum]
  cases hv : y.toModel.unpack with
  | notANumber | infinity | zero =>
    rw [hv] at hy
    cases hy
  | finite t n f hn =>
    obtain rfl : t = .positive := by
      rw [hv] at hy
      cases t with
      | negative => cases hy
      | positive => rfl
    cases hr : read x with
    | undefined =>
      have hu := unpack_ne_notANumber hx
      rw [unpack_eq, hr] at hu
      exact absurd rfl hu
    | infinite s =>
      -- infinity stays what it is
      have hu : x.toModel.unpack = .infinity (signOf s) := by rw [unpack_eq, hr]; rfl
      rw [hu]
      change (UnpackedFloat.infinity _).le (Float.Model.pack (.infinity _)).unpack = true
      rw [unpack_pack_infinity, ← hu]
      exact le_iff_unpack.1 (le_self hx)
    | finite b =>
      by_cases hb : b.mantissa = 0
      · -- the sum of zero and a number is the number
        have hu : x.toModel.unpack = .zero (signOf b.negative) := by
          rw [unpack_eq, hr]
          exact dif_pos hb
        rw [hu]
        change (UnpackedFloat.zero _).le (Float.Model.pack (.finite .positive n f hn)).unpack = true
        rw [← hv, pack_unpack, hv, le_iff_rankOf]
        simp [rankOf, Prod.Lex.toLex_le_toLex]
      · have hc := canonical_of_read hr hb
        have hu : x.toModel.unpack =
            .finite (signOf b.negative) b.mantissa b.exponent hc.pos := by
          rw [unpack_eq, hr]
          exact dif_neg hb
        rw [hu]
        exact le_add_finite hc hn f _

theorem isPositive_one : isPositive (1.0 : Float).toModel.unpack = true := by decide +kernel

end Sums

end Kanban.Decimal
