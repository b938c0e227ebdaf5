import Kanban.Card
import Kanban.Proofs.Sorting
import Mathlib

/-!
# Kanban.Proofs.Decimal.Order — how floats are ordered

Two floats are compared by sign, exponent and mantissa. Every float but the undefined one has a
rank, three whole numbers in lexicographic order, and a float is below another iff its rank is, so
that defined floats are ordered as numbers are.

* `lt_iff_rank`, `le_iff_rank` — comparing floats is comparing ranks.
* `orders_below` — defined floats are ordered.
* `below_eq_false_iff` — what is not below is at least as high.
-/

namespace Kanban.Decimal

open Float.Model

/-- The place of the parts of a float in the order of numbers: infinity and zero by their sign alone,
all others by sign, exponent and mantissa. Nothing undefined has a place. -/
def rankOf : UnpackedFloat → Option (ℤ ×ₗ ℤ ×ₗ ℤ)
  | .notANumber => none
  | .infinity .negative => some (toLex (-2, toLex (0, 0)))
  | .infinity .positive => some (toLex (2, toLex (0, 0)))
  | .zero _ => some (toLex (0, toLex (0, 0)))
  | .finite .negative m e _ => some (toLex (-1, toLex (-e, -(m : ℤ))))
  | .finite .positive m e _ => some (toLex (1, toLex (e, (m : ℤ))))

/-- The rank of a float. -/
def rank? (x : Float) : Option (ℤ ×ₗ ℤ ×ₗ ℤ) := rankOf x.toModel.unpack

theorem lt_iff_rankOf (a b : UnpackedFloat) :
    a.lt b = true ↔ ∃ r ∈ rankOf a, ∃ s ∈ rankOf b, r < s := by
  -- by kind and sign; two finite numbers of one sign are compared by exponent and mantissa
  rcases a with ⟨⟨⟩⟩ | _ | ⟨⟨⟩⟩ | ⟨⟨⟩, m, e, hm⟩ <;> rcases b with ⟨⟨⟩⟩ | _ | ⟨⟨⟩⟩ | ⟨⟨⟩, n, f, hn⟩ <;>
    simp [UnpackedFloat.lt, UnpackedFloat.compare, rankOf, Prod.Lex.toLex_lt_toLex,
      Ordering.then_eq_lt, Ordering.then_eq_gt, compare_lt_iff_lt, compare_gt_iff_gt]
  rfl

theorem le_iff_rankOf (a b : UnpackedFloat) :
    a.le b = true ↔ ∃ r ∈ rankOf a, ∃ s ∈ rankOf b, r ≤ s := by
  rcases a with ⟨⟨⟩⟩ | _ | ⟨⟨⟩⟩ | ⟨⟨⟩, m, e, hm⟩ <;> rcases b with ⟨⟨⟩⟩ | _ | ⟨⟨⟩⟩ | ⟨⟨⟩, n, f, hn⟩ <;>
    simp [UnpackedFloat.le, UnpackedFloat.compare, rankOf, Prod.Lex.toLex_le_toLex,
      Ordering.isLE_iff_ne_gt, Ordering.isGE_iff_ne_lt, Ordering.then_eq_lt, Ordering.then_eq_gt,
      compare_lt_iff_lt, compare_gt_iff_gt]
  -- what is left: two infinities of different signs, and two finite numbers of one sign
  · decide
  · omega
  · omega

/-- A float is below another iff its rank is. -/
theorem lt_iff_rank {x y : Float} : x < y ↔ ∃ r ∈ rank? x, ∃ s ∈ rank? y, r < s := by
  have h : x < y ↔ x.toModel.unpack.lt y.toModel.unpack = true := decide_eq_true_iff
  rw [h]
  exact lt_iff_rankOf _ _

/-- A float is at most another iff its rank is. -/
theorem le_iff_rank {x y : Float} : x ≤ y ↔ ∃ r ∈ rank? x, ∃ s ∈ rank? y, r ≤ s := by
  have h : x ≤ y ↔ x.toModel.unpack.le y.toModel.unpack = true := decide_eq_true_iff
  rw [h]
  exact le_iff_rankOf _ _

/-- Only the undefined float has no rank. -/
theorem rank?_eq_none_iff {x : Float} : rank? x = none ↔ x.isNaN = true := by
  change rankOf x.toModel.unpack = none ↔ x.toModel.unpack.isNaN = true
  rcases x.toModel.unpack with ⟨⟨⟩⟩ | _ | ⟨⟨⟩⟩ | ⟨⟨⟩, m, e, hm⟩ <;> simp [rankOf, UnpackedFloat.isNaN]

theorem exists_rank {x : Float} (h : x.isNaN = false) : ∃ r, rank? x = some r := by
  refine Option.ne_none_iff_exists'.1 fun hr => ?_
  rw [rank?_eq_none_iff.1 hr] at h
  exact Bool.noConfusion h

/-- Between defined floats, what is not below is at least as high. -/
theorem below_eq_false_iff {x y : Float} (hx : x.isNaN = false) (hy : y.isNaN = false) :
    below x y = false ↔ y ≤ x := by
  obtain ⟨r, hr⟩ := exists_rank hx
  obtain ⟨s, hs⟩ := exists_rank hy
  simp [below, lt_iff_rank, le_iff_rank, hr, hs]

/-- What is at most as high is not above, whether or not there is an order. -/
theorem below_eq_false_of_le {x y : Float} (h : x ≤ y) : below y x = false := by
  obtain ⟨r, hr, s, hs, hrs⟩ := le_iff_rank.1 h
  refine decide_eq_false fun hlt => ?_
  obtain ⟨s', hs', r', hr', hsr⟩ := lt_iff_rank.1 hlt
  obtain rfl : s = s' := Option.some.inj (hs.symm.trans hs')
  obtain rfl : r = r' := Option.some.inj (hr.symm.trans hr')
  exact absurd hsr (not_lt.2 hrs)

/-- Of two floats at most one is below the other. -/
theorem below_asymm {x y : Float} (h : below x y = true) : below y x = false := by
  obtain ⟨r, hr, s, hs, hrs⟩ := lt_iff_rank.1 (of_decide_eq_true h)
  exact below_eq_false_of_le (le_iff_rank.2 ⟨r, hr, s, hs, hrs.le⟩)

/-- Defined floats are ordered. -/
theorem orders_below : Sorting.Orders below fun x => x.isNaN = false where
  asymm := fun _ _ h => below_asymm h
  trans := by
    intro x y z hx hy hz hyx hzy
    obtain ⟨r, hr⟩ := exists_rank hx
    obtain ⟨s, hs⟩ := exists_rank hy
    obtain ⟨t, ht⟩ := exists_rank hz
    have hrs : r ≤ s := by simpa [below, lt_iff_rank, hr, hs] using hyx
    have hst : s ≤ t := by simpa [below, lt_iff_rank, hs, ht] using hzy
    simpa [below, lt_iff_rank, hr, ht] using hrs.trans hst

theorem beq_iff_rankOf (a b : UnpackedFloat) : a.beq b = true ↔ ∃ r ∈ rankOf a, r ∈ rankOf b := by
  rcases a with ⟨⟨⟩⟩ | _ | ⟨⟨⟩⟩ | ⟨⟨⟩, m, e, hm⟩ <;> rcases b with ⟨⟨⟩⟩ | _ | ⟨⟨⟩⟩ | ⟨⟨⟩, n, f, hn⟩ <;>
    simp [UnpackedFloat.beq, UnpackedFloat.compare, rankOf, Ordering.then_eq_eq]
  -- what is left: two infinities of one sign, and two finite numbers of one sign
  · decide
  · decide
  · omega
  · omega

/-- Floats that are at most each other are equal. -/
theorem beq_of_le_of_le {x y : Float} (hxy : x ≤ y) (hyx : y ≤ x) : (x == y) = true := by
  obtain ⟨r, hr, s, hs, hrs⟩ := le_iff_rank.1 hxy
  obtain ⟨s', hs', r', hr', hsr⟩ := le_iff_rank.1 hyx
  obtain rfl : s = s' := Option.some.inj (hs.symm.trans hs')
  obtain rfl : r = r' := Option.some.inj (hr.symm.trans hr')
  have heq : (x == y) = x.toModel.unpack.beq y.toModel.unpack := rfl
  rw [heq, beq_iff_rankOf]
  exact ⟨r, hr, le_antisymm hrs hsr ▸ hs⟩

end Kanban.Decimal
