import Mathlib
import Kanban.Decimal.Binary

/-!
# Kanban.Proofs.Decimal.Rounding — numbers that round to a float

The floats are whole numbers of powers of two, `m · 2 ^ e` in lowest terms as far as the width of the
mantissa goes. Every number in the interval around such a float, half a unit to both sides, is
rounded to it.

* `Holds`, `holds_shift` — what the residual bits of a mantissa say of a number, and that shifting
  keeps it.
* `Nearest.unique` — only one whole number is nearest, where ties go to the even one.
* `round_eq` — what lies in the interval of a float is rounded to the float.
* `mul_eq`, `div_eq` — products and quotients in the interval of a float.
-/

namespace Kanban.Decimal.Rounding

open Float.Model Float.Model.UnpackedFloat

variable {em : ExtendedMantissa} {x v : ℚ} {m n : Nat} {e : Int}

/-! ## Residual bits -/

/-- What a mantissa with residual bits says of a number. -/
def Holds : ExtendedMantissa → ℚ → Prop
  | ⟨m, false, false⟩, x => x = m
  | ⟨m, false, true⟩, x => m < x ∧ x < m + 1 / 2
  | ⟨m, true, false⟩, x => x = m + 1 / 2
  | ⟨m, true, true⟩, x => m + 1 / 2 < x ∧ x < m + 1

theorem Holds.le (h : Holds em x) : (em.mantissa : ℚ) ≤ x := by
  obtain ⟨m, r, s⟩ := em
  cases r <;> cases s <;> simp only [Holds] at h <;> dsimp only <;> linarith

theorem Holds.lt (h : Holds em x) : x < em.mantissa + 1 := by
  obtain ⟨m, r, s⟩ := em
  cases r <;> cases s <;> simp only [Holds] at h <;> dsimp only <;> linarith

theorem holds_shiftRightOne (h : Holds em x) : Holds em.shiftRightOne (x / 2) := by
  obtain ⟨m, r, s⟩ := em
  -- the lowest bit of the mantissa becomes the round bit
  rcases Nat.even_or_odd' m with ⟨k, rfl | rfl⟩
  · have hdiv : 2 * k / 2 = k := by omega
    have hmod : 2 * k % 2 = 0 := by omega
    cases r <;> cases s <;>
      simp only [Holds, ExtendedMantissa.shiftRightOne, hdiv, hmod, bne_self_eq_false,
        Bool.or_false, Bool.or_true] at h ⊢ <;>
      push_cast at h ⊢ <;> first | linarith | (constructor <;> linarith)
  · have hdiv : (2 * k + 1) / 2 = k := by omega
    have hmod : (2 * k + 1) % 2 = 1 := by omega
    have hbit : (1 != 0) = true := rfl
    cases r <;> cases s <;>
      simp only [Holds, ExtendedMantissa.shiftRightOne, hdiv, hmod, hbit,
        Bool.or_false, Bool.or_true] at h ⊢ <;>
      push_cast at h ⊢ <;> first | linarith | (constructor <;> linarith)

theorem holds_shift (h : Holds em x) (n : Nat) : Holds (em >>> n) (x / 2 ^ n) := by
  induction n with
  | zero => simpa [HShiftRight.hShiftRight, Nat.repeat] using h
  | succ n ih =>
    have hstep := holds_shiftRightOne ih
    rw [pow_succ, ← div_div]
    exact hstep

/-- The whole number nearest to a number, the even one of two. -/
structure Nearest (x : ℚ) (n : Nat) : Prop where
  low : n - 1 / 2 ≤ x
  high : x ≤ n + 1 / 2
  even : x = n - 1 / 2 ∨ x = n + 1 / 2 → n % 2 = 0

theorem Nearest.unique (hm : Nearest x m) (hn : Nearest x n) : m = n := by
  -- if one were the next after the other, the number would lie between two even neighbours
  have hstep {a b : Nat} (ha : Nearest x a) (hb : Nearest x b) : ¬ a < b := by
    intro hlt
    have hle : (a : ℚ) + 1 ≤ b := by exact_mod_cast hlt
    have hx : x = a + 1 / 2 := le_antisymm ha.high (by linarith [hb.low])
    have hab : (b : ℚ) = a + 1 := le_antisymm (by linarith [hb.low]) hle
    have hbn : b = a + 1 := by exact_mod_cast hab
    have hea := ha.even (.inr hx)
    have heb := hb.even (.inl (by rw [hx, hab]; ring))
    omega
  exact Nat.le_antisymm (Nat.le_of_not_lt (hstep hn hm)) (Nat.le_of_not_lt (hstep hm hn))

/-- Rounding finds the nearest whole number. -/
theorem nearest_rounded (h : Holds em x) : Nearest x em.roundedMantissa := by
  obtain ⟨m, r, s⟩ := em
  cases r <;> cases s <;>
    simp only [Holds, ExtendedMantissa.roundedMantissa, ExtendedMantissa.accuracy,
      Accuracy.roundToNearestEven] at h ⊢
  · exact ⟨by linarith, by linarith, fun ht => by rcases ht with ht | ht <;> linarith⟩
  · exact ⟨by linarith, by linarith, fun ht => by rcases ht with ht | ht <;> linarith⟩
  · -- a tie: one more if the mantissa is odd
    rcases Nat.even_or_odd' m with ⟨k, rfl | rfl⟩
    · have hmod : 2 * k % 2 = 0 := by omega
      rw [hmod, Nat.add_zero]
      exact ⟨by linarith, by linarith, fun _ => hmod⟩
    · have hmod : (2 * k + 1) % 2 = 1 := by omega
      rw [hmod]
      refine ⟨?_, ?_, fun _ => by omega⟩
      · push_cast at h ⊢
        linarith
      · push_cast at h ⊢
        linarith
  · refine ⟨?_, ?_, fun ht => ?_⟩
    · push_cast
      linarith
    · push_cast
      linarith
    · push_cast at ht
      rcases ht with ht | ht <;> linarith

/-! ## The interval of a float -/

theorem two_zpow_pos (e : Int) : (0 : ℚ) < 2 ^ e := zpow_pos (by norm_num) e

/-- A mantissa and an exponent as floats have them. -/
structure Canonical (m : Nat) (e : Int) : Prop where
  pos : 0 < m
  lt : m < 2 ^ 53
  least : -1074 ≤ e
  most : e ≤ 971
  full : e = -1074 ∨ 2 ^ 52 ≤ m

/-- The least number that may be rounded to a float. Below a power of two the floats are twice as
close. -/
def lowest (m : Nat) (e : Int) : ℚ :=
  if m = 2 ^ 52 ∧ e ≠ -1074 then (m - 1 / 4) * 2 ^ e else (m - 1 / 2) * 2 ^ e

/-- The greatest number that may be rounded to a float. -/
def highest (m : Nat) (e : Int) : ℚ := (m + 1 / 2) * 2 ^ e

/-- A number lies in the interval of a float; the ends belong to it if the mantissa is even. -/
structure Rounds (m : Nat) (e : Int) (v : ℚ) : Prop where
  low : lowest m e ≤ v
  high : v ≤ highest m e
  inside : m % 2 = 1 → lowest m e < v ∧ v < highest m e

theorem target_eq (t : Int) : Format.binary64.targetExponent t = max (t - 53) (-1074) := rfl

theorem half_le_lowest (m : Nat) (e : Int) : (m - 1 / 2) * 2 ^ e ≤ lowest m e := by
  have hp := two_zpow_pos e
  unfold lowest
  split
  · nlinarith
  · exact le_refl _

/-- In units of the float, a number of its interval is nearest to the mantissa. -/
theorem Rounds.nearest (h : Rounds m e v) : Nearest (v / 2 ^ e) m := by
  have hp := two_zpow_pos e
  have hlow : (m - 1 / 2) * 2 ^ e ≤ v := (half_le_lowest m e).trans h.low
  refine ⟨(le_div_iff₀ hp).2 hlow, (div_le_iff₀ hp).2 h.high, fun ht => ?_⟩
  by_contra hodd
  obtain ⟨hl, hh⟩ := h.inside (by omega)
  rcases ht with ht | ht
  · rw [div_eq_iff hp.ne'] at ht
    have hl' := lt_of_le_of_lt (half_le_lowest m e) hl
    linarith
  · rw [div_eq_iff hp.ne'] at ht
    unfold highest at hh
    linarith

/-- What is rounded to a power of two from below is nearest to it in half units. -/
theorem Rounds.nearest_below (h : Rounds (2 ^ 52) e v) (he : e ≠ -1074)
    (hv : v < 2 ^ 52 * 2 ^ e) : Nearest (v / 2 ^ (e - 1)) (2 ^ 53) := by
  have hp := two_zpow_pos (e - 1)
  have hhalf : (2 : ℚ) ^ e = 2 * 2 ^ (e - 1) := by
    rw [← zpow_one_add₀ (by norm_num : (2 : ℚ) ≠ 0)]
    congr 1
    omega
  have hlow := h.low
  unfold lowest at hlow
  rw [if_pos ⟨rfl, he⟩, hhalf] at hlow
  rw [hhalf] at hv
  push_cast at hlow
  refine ⟨(le_div_iff₀ hp).2 ?_, (div_le_iff₀ hp).2 ?_, fun _ => by norm_num⟩
  · push_cast
    linarith
  · push_cast
    linarith

/-! ## Rounding -/

theorem shift_id (hm : m < 2 ^ 53) (he : -1074 ≤ e) :
    shiftToTargetExponent .binary64 m e .exact = (⟨m, false, false⟩, e) := by
  have hlog : m.log2 ≤ 52 := by
    by_cases h0 : m = 0
    · simp [h0]
    · have hlt := (Nat.log2_lt h0).2 hm
      omega
  have htarget : (Format.binary64.targetExponent (totalExponent m e) - e).toNat = 0 := by
    rw [target_eq, totalExponent]
    omega
  unfold shiftToTargetExponent shiftToExponent
  simp only [htarget]
  simp [HShiftRight.hShiftRight, Nat.repeat, ExtendedMantissa.ofMantissaAndAccuracy]

/-- A mantissa that has become too wide is a power of two. -/
theorem shift_wide (he : -1074 ≤ e) :
    shiftToTargetExponent .binary64 (2 ^ 53) e .exact = (⟨2 ^ 52, false, false⟩, e + 1) := by
  have htarget : Format.binary64.targetExponent (totalExponent (2 ^ 53) e) = e + 1 := by
    rw [target_eq, totalExponent, Nat.log2_two_pow]
    omega
  unfold shiftToTargetExponent
  rw [htarget]
  simp [shiftToExponent, HShiftRight.hShiftRight, Nat.repeat,
    ExtendedMantissa.ofMantissaAndAccuracy, ExtendedMantissa.shiftRightOne]

/-- A mantissa with all the bits that count, and what is known of the number it stands for. -/
structure Given (m : Nat) (e : Int) (acc : Accuracy) (v : ℚ) : Prop where
  holds : Holds (.ofMantissaAndAccuracy m acc) (v / 2 ^ e)
  /-- No bit of the result is missing. -/
  fine : e ≤ max ((m.log2 : Int) + 1 + e - 53) (-1074)
  zero : m = 0 → e ≤ -1074

theorem mantissa_of (m : Nat) (acc : Accuracy) :
    (ExtendedMantissa.ofMantissaAndAccuracy m acc).mantissa = m := by
  cases acc with
  | exact => rfl
  | inexact o => cases o <;> rfl

variable {acc : Accuracy}

theorem Given.lt (h : Given m e acc v) : v < 2 ^ ((m.log2 : Int) + 1 + e) := by
  have hp := two_zpow_pos e
  have hx := h.holds.lt
  rw [mantissa_of, div_lt_iff₀ hp] at hx
  have hlog : (m : ℚ) + 1 ≤ 2 ^ (m.log2 + 1) := by exact_mod_cast Nat.lt_log2_self
  have hpow : (2 : ℚ) ^ ((m.log2 : Int) + 1 + e) = 2 ^ (m.log2 + 1) * 2 ^ e := by
    rw [zpow_add₀ (by norm_num : (2 : ℚ) ≠ 0)]
    norm_cast
  rw [hpow]
  exact lt_of_lt_of_le hx (mul_le_mul_of_nonneg_right hlog hp.le)

theorem Given.le (h : Given m e acc v) (hm : m ≠ 0) : 2 ^ ((m.log2 : Int) + e) ≤ v := by
  have hp := two_zpow_pos e
  have hx := h.holds.le
  rw [mantissa_of, le_div_iff₀ hp] at hx
  have hlog : (2 : ℚ) ^ m.log2 ≤ m := by exact_mod_cast Nat.log2_self_le hm
  have hpow : (2 : ℚ) ^ ((m.log2 : Int) + e) = 2 ^ m.log2 * 2 ^ e := by
    rw [zpow_add₀ (by norm_num : (2 : ℚ) ≠ 0)]
    norm_cast
  rw [hpow]
  exact (mul_le_mul_of_nonneg_right hlog hp.le).trans hx

/-- The exponent that a mantissa is shifted to. -/
def target (m : Nat) (e : Int) : Int := max ((m.log2 : Int) + 1 + e - 53) (-1074)

/-- Shifting loses nothing that counts for rounding. -/
theorem Given.shift (h : Given m e acc v) :
    ∃ em, shiftToTargetExponent .binary64 m e acc = (em, target m e) ∧
      Holds em (v / 2 ^ target m e) := by
  have hfine : e ≤ target m e := h.fine
  have hexp : e + ((target m e - e).toNat : Int) = target m e := by omega
  refine ⟨ExtendedMantissa.ofMantissaAndAccuracy m acc >>> (target m e - e).toNat, ?_, ?_⟩
  · unfold shiftToTargetExponent shiftToExponent
    rw [target_eq, totalExponent]
    exact congrArg _ hexp
  · have hshift := holds_shift h.holds (target m e - e).toNat
    have hpow : (2 : ℚ) ^ target m e = 2 ^ e * 2 ^ (target m e - e).toNat := by
      conv_lhs => rw [← hexp]
      rw [zpow_add₀ (by norm_num : (2 : ℚ) ≠ 0), zpow_natCast]
    rw [hpow, ← div_div]
    exact hshift

/-- A power of two that is below another has the lesser exponent. -/
theorem lt_of_two_zpow {a b : Int} (h : (2 : ℚ) ^ a < 2 ^ b) : a < b :=
  (zpow_lt_zpow_iff_right₀ (by norm_num)).1 h

/-- The exponent that a number is shifted to is that of the float, or one below it if the number lies
below a power of two. -/
theorem Given.target_cases (h : Given m e acc v) {M : Nat} {E : Int} (hc : Canonical M E)
    (hr : Rounds M E v) :
    target m e = E ∨ target m e = E - 1 ∧ M = 2 ^ 52 ∧ E ≠ -1074 ∧ v < 2 ^ 52 * 2 ^ E := by
  have hp := two_zpow_pos E
  have hleast := hc.least
  have hpow (k : Nat) : (2 : ℚ) ^ ((k : Int) + E) = 2 ^ k * 2 ^ E := by
    rw [zpow_add₀ (by norm_num : (2 : ℚ) ≠ 0), zpow_natCast]
  have hM : (M : ℚ) + 1 ≤ 2 ^ 53 := by exact_mod_cast hc.lt
  -- the number is not above the next power of two
  have habove : v < 2 ^ ((53 : Nat) + E) := by
    have hhigh := hr.high
    unfold highest at hhigh
    rw [hpow]
    nlinarith
  have hlow : (M - 1 / 2) * 2 ^ E ≤ v := (half_le_lowest M E).trans hr.low
  unfold target
  by_cases hE : E = -1074
  · by_cases hm : m = 0
    · have hzero := h.zero hm
      subst hm
      rw [Nat.log2_zero]
      omega
    · have hlt := lt_of_two_zpow (lt_of_le_of_lt (h.le hm) habove)
      push_cast at hlt
      omega
  · have hfull := hc.full.resolve_left hE
    have hMf : (2 : ℚ) ^ 52 ≤ M := by exact_mod_cast hfull
    -- nothing but a mantissa of zero is shorter than the float
    have hm : m ≠ 0 := by
      rintro rfl
      have hzero := h.zero rfl
      have hlt := h.lt
      rw [Nat.log2_zero] at hlt
      have hbig : (2 : ℚ) ^ ((51 : Nat) + E) ≤ v := by
        rw [hpow]
        nlinarith
      have hexp := lt_of_two_zpow (lt_of_le_of_lt hbig hlt)
      push_cast at hexp
      omega
    have hupper := lt_of_two_zpow (lt_of_le_of_lt (h.le hm) habove)
    push_cast at hupper
    by_cases hv : (2 : ℚ) ^ 52 * 2 ^ E ≤ v
    · rw [← hpow] at hv
      have hexp := lt_of_two_zpow (lt_of_le_of_lt hv h.lt)
      push_cast at hexp
      omega
    · rw [not_le] at hv
      have hMeq : M = 2 ^ 52 := by
        by_contra hne
        have hgt : 2 ^ 52 + 1 ≤ M := by omega
        have hgt' : (2 : ℚ) ^ 52 + 1 ≤ M := by exact_mod_cast hgt
        nlinarith
      have hbig : (2 : ℚ) ^ ((51 : Nat) + E) ≤ v := by
        rw [hpow]
        nlinarith
      have hexp := lt_of_two_zpow (lt_of_le_of_lt hbig h.lt)
      have hbelow := hv
      rw [← hpow] at hbelow
      have hexp' := lt_of_two_zpow (lt_of_le_of_lt (h.le hm) hbelow)
      push_cast at hexp hexp'
      exact .inr ⟨by omega, hMeq, hE, hv⟩

/-- What lies in the interval of a float is rounded to the float. -/
theorem round_eq (h : Given m e acc v) {M : Nat} {E : Int} (hc : Canonical M E)
    (hr : Rounds M E v) (s : Sign) :
    roundWithAccuracy .binary64 s m e acc = .finite s M E hc.pos := by
  have hleast := hc.least
  obtain ⟨em, hshift, hem⟩ := h.shift
  have hnear := nearest_rounded hem
  unfold roundWithAccuracy
  rw [hshift]
  rcases h.target_cases hc hr with ht | ⟨ht, rfl, hE, hv⟩
  · -- the mantissa is that of the float
    rw [ht] at hnear ⊢
    have hmant : em.roundedMantissa = M := hnear.unique hr.nearest
    simp only [hmant, shift_id hc.lt hleast]
    exact dif_neg hc.pos.ne'
  · -- the mantissa has become too wide
    rw [ht] at hnear ⊢
    have hmant : em.roundedMantissa = 2 ^ 53 := hnear.unique (hr.nearest_below hE hv)
    simp only [hmant, shift_wide (show -1074 ≤ E - 1 by omega)]
    rw [dif_neg (by norm_num)]
    congr 1
    omega

/-! ## Products and quotients -/

variable {m₁ m₂ : Nat} {e₁ e₂ : Int}

theorem given_mul (h₁ : 0 < m₁) (h₂ : 0 < m₂) (hbits : 2 ^ 52 ≤ m₁ * m₂) :
    Given (m₁ * m₂) (e₁ + e₂) .exact (m₁ * 2 ^ e₁ * (m₂ * 2 ^ e₂)) := by
  refine ⟨?_, ?_, fun h0 => ?_⟩
  · have hp := two_zpow_pos (e₁ + e₂)
    change (m₁ : ℚ) * 2 ^ e₁ * (m₂ * 2 ^ e₂) / 2 ^ (e₁ + e₂) = ((m₁ * m₂ : Nat) : ℚ)
    rw [div_eq_iff hp.ne', zpow_add₀ (by norm_num : (2 : ℚ) ≠ 0)]
    push_cast
    ring
  · have hlog : 52 ≤ (m₁ * m₂).log2 := (Nat.le_log2 (by positivity)).2 hbits
    omega
  · omega

/-- A product that lies in the interval of a float is that float. -/
theorem mul_eq (h₁ : 0 < m₁) (h₂ : 0 < m₂) (hbits : 2 ^ 52 ≤ m₁ * m₂) {M : Nat} {E : Int}
    (hc : Canonical M E) (hr : Rounds M E (m₁ * 2 ^ e₁ * (m₂ * 2 ^ e₂))) (s₁ s₂ : Sign) :
    mul .binary64 (.finite s₁ m₁ e₁ h₁) (.finite s₂ m₂ e₂ h₂) = .finite (s₁ * s₂) M E hc.pos :=
  round_eq (given_mul h₁ h₂ hbits) hc hr (s₁ * s₂)

/-- A fraction is told from its half. -/
theorem holds_fraction (q : Nat) {r d : Nat} (hr : r < d) :
    Holds (.ofMantissaAndAccuracy q (accuracyOfFraction r d)) (q + r / d) := by
  have hd : (0 : ℚ) < d := by exact_mod_cast (Nat.zero_le r).trans_lt hr
  unfold accuracyOfFraction
  split
  · rename_i h0
    rw [h0]
    simp [ExtendedMantissa.ofMantissaAndAccuracy, Holds]
  · rename_i h0
    have hpos : (0 : ℚ) < r / d := div_pos (by exact_mod_cast Nat.pos_of_ne_zero h0) hd
    have hlt : (r : ℚ) / d < 1 := (div_lt_one hd).2 (by exact_mod_cast hr)
    rcases Nat.lt_trichotomy (2 * r) d with hcmp | hcmp | hcmp
    · have hhalf : (r : ℚ) / d < 1 / 2 := by
        rw [div_lt_iff₀ hd]
        have hcast : (2 : ℚ) * r < d := by exact_mod_cast hcmp
        linarith
      rw [Nat.compare_eq_lt.2 hcmp]
      exact ⟨by linarith, by linarith⟩
    · have hhalf : (r : ℚ) / d = 1 / 2 := by
        rw [div_eq_iff hd.ne']
        have hcast : (2 : ℚ) * r = d := by exact_mod_cast hcmp
        linarith
      rw [Nat.compare_eq_eq.2 hcmp]
      change (q : ℚ) + r / d = q + 1 / 2
      rw [hhalf]
    · have hhalf : 1 / 2 < (r : ℚ) / d := by
        rw [lt_div_iff₀ hd]
        have hcast : (d : ℚ) < 2 * r := by exact_mod_cast hcmp
        linarith
      rw [Nat.compare_eq_gt.2 hcmp]
      exact ⟨by linarith, by linarith⟩

/-- The quotient of mantissas has all the bits that count. -/
theorem given_divCore (h₁ : 0 < m₁) (h₂ : 0 < m₂) :
    Given (divCore .binary64 m₁ e₁ m₂ e₂).1 (divCore .binary64 m₁ e₁ m₂ e₂).2.1
      (divCore .binary64 m₁ e₁ m₂ e₂).2.2 (m₁ * 2 ^ e₁ / (m₂ * 2 ^ e₂)) := by
  unfold divCore
  rw [target_eq, totalExponent, totalExponent]
  dsimp only
  generalize ht : min (e₁ - e₂) (max ((m₁.log2 : Int) + 1 + e₁ - ((m₂.log2 : Int) + 1 + e₂) - 53)
    (-1074)) = t
  generalize hk : (e₁ - e₂ - t).toNat = k
  have hkt : (k : Int) = e₁ - e₂ - t := by omega
  have hm₂ : (0 : ℚ) < m₂ := by exact_mod_cast h₂
  have hlog₁ := Nat.log2_self_le h₁.ne'
  have hlog₂ : m₂ < 2 ^ (m₂.log2 + 1) := Nat.lt_log2_self
  -- the quotient is wide enough, unless it is to be cut to the least exponent
  have hwide : t ≤ -1074 ∨ 2 ^ 52 ≤ (m₁ <<< k) / m₂ := by
    by_cases hmin : t ≤ -1074
    · exact .inl hmin
    · refine .inr ((Nat.le_div_iff_mul_le h₂).2 ?_)
      rw [Nat.shiftLeft_eq]
      have hle : 52 + (m₂.log2 + 1) ≤ m₁.log2 + k := by omega
      calc 2 ^ 52 * m₂ ≤ 2 ^ 52 * 2 ^ (m₂.log2 + 1) := Nat.mul_le_mul_left _ hlog₂.le
        _ = 2 ^ (52 + (m₂.log2 + 1)) := (Nat.pow_add ..).symm
        _ ≤ 2 ^ (m₁.log2 + k) := Nat.pow_le_pow_right (by norm_num) hle
        _ = 2 ^ m₁.log2 * 2 ^ k := Nat.pow_add ..
        _ ≤ m₁ * 2 ^ k := Nat.mul_le_mul_right _ hlog₁
  constructor
  case holds =>
    have hvalue : (m₁ : ℚ) * 2 ^ e₁ / (m₂ * 2 ^ e₂) / 2 ^ t =
        ((m₁ <<< k / m₂ : Nat) : ℚ) + ((m₁ <<< k % m₂ : Nat) : ℚ) / m₂ := by
      have hdivmod : ((m₁ <<< k : Nat) : ℚ) =
          m₂ * ((m₁ <<< k / m₂ : Nat) : ℚ) + ((m₁ <<< k % m₂ : Nat) : ℚ) := by
        exact_mod_cast (Nat.div_add_mod (m₁ <<< k) m₂).symm
      have hshift : ((m₁ <<< k : Nat) : ℚ) = m₁ * (2 ^ e₁ / 2 ^ e₂ / 2 ^ t) := by
        rw [Nat.shiftLeft_eq, ← zpow_sub₀ (by norm_num : (2 : ℚ) ≠ 0),
          ← zpow_sub₀ (by norm_num : (2 : ℚ) ≠ 0), ← hkt, zpow_natCast]
        push_cast
        rfl
      have he₂ := (two_zpow_pos e₂).ne'
      have htp := (two_zpow_pos t).ne'
      have hquot : (m₁ : ℚ) * 2 ^ e₁ / (m₂ * 2 ^ e₂) / 2 ^ t = ((m₁ <<< k : Nat) : ℚ) / m₂ := by
        rw [hshift]
        field_simp
      rw [hquot, hdivmod, add_div, mul_div_cancel_left₀ _ hm₂.ne']
    rw [hvalue]
    exact holds_fraction _ (Nat.mod_lt _ h₂)
  case fine =>
    rcases hwide with hmin | hbits
    · omega
    · have hlog : 52 ≤ (m₁ <<< k / m₂).log2 := (Nat.le_log2 (by omega)).2 hbits
      omega
  case zero =>
    intro h0
    rcases hwide with hmin | hbits
    · exact hmin
    · omega

/-- A quotient that lies in the interval of a float is that float. -/
theorem div_eq (h₁ : 0 < m₁) (h₂ : 0 < m₂) {M : Nat} {E : Int} (hc : Canonical M E)
    (hr : Rounds M E (m₁ * 2 ^ e₁ / (m₂ * 2 ^ e₂))) (s₁ s₂ : Sign) :
    div .binary64 (.finite s₁ m₁ e₁ h₁) (.finite s₂ m₂ e₂ h₂) = .finite (s₁ / s₂) M E hc.pos :=
  round_eq (given_divCore h₁ h₂) hc hr (s₁ / s₂)

end Kanban.Decimal.Rounding
