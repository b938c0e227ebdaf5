import Kanban.Proofs.Decimal.Defined
import Kanban.Proofs.Decimal.Sums

/-!
# Kanban.Proofs.Decimal.Equality — reckoning with equal floats

Two floats may be equal and not the same: zero has two signs. Sums, differences and quotients of
equal floats are equal again, or undefined on both sides.

* `Alike` — floats with the same parts but for the sign of zero.
* `alike_of_beq`, `Alike.beq` — being alike and being equal.
* `Alike.add`, `Alike.sub`, `Alike.div` — reckoning with alike floats.
-/

namespace Kanban.Decimal

open Float.Model Float.Model.UnpackedFloat

/-- Parts of floats that are the same but for the sign of zero. -/
def SameParts (u v : UnpackedFloat) : Prop := u = v ∨ ∃ s t, u = .zero s ∧ v = .zero t

namespace SameParts

variable {u u' v v' : UnpackedFloat}

theorem zeros (s t : Sign) : SameParts (.zero s) (.zero t) := .inr ⟨s, t, rfl, rfl⟩

/-- A zero adds nothing, whatever its sign. -/
theorem add_zero (u : UnpackedFloat) (spec : Format) (s t : Sign) :
    SameParts (u.add spec (.zero s)) (u.add spec (.zero t)) := by
  rcases u with r | _ | r | ⟨r, m, e, hm⟩
  case zero =>
    change SameParts (if r == s then .zero r else .zero .positive)
      (if r == t then .zero r else .zero .positive)
    split <;> split <;> exact zeros _ _
  all_goals exact .inl rfl

theorem zero_add (u : UnpackedFloat) (spec : Format) (s t : Sign) :
    SameParts (UnpackedFloat.add spec (.zero s) u) (UnpackedFloat.add spec (.zero t) u) := by
  rcases u with r | _ | r | ⟨r, m, e, hm⟩
  case zero =>
    change SameParts (if s == r then .zero s else .zero .positive)
      (if t == r then .zero t else .zero .positive)
    split <;> split <;> exact zeros _ _
  all_goals exact .inl rfl

theorem zero_sub (u : UnpackedFloat) (spec : Format) (s t : Sign) :
    SameParts (UnpackedFloat.sub spec (.zero s) u) (UnpackedFloat.sub spec (.zero t) u) := by
  rcases u with r | _ | r | ⟨r, m, e, hm⟩
  case zero =>
    change SameParts (if s == -r then .zero s else .zero .positive)
      (if t == -r then .zero t else .zero .positive)
    split <;> split <;> exact zeros _ _
  all_goals exact .inl rfl

theorem zero_div {u : UnpackedFloat} (hu : isSolid u = true) (spec : Format) (s t : Sign) :
    SameParts (UnpackedFloat.div spec (.zero s) u) (UnpackedFloat.div spec (.zero t) u) := by
  rcases u with r | _ | r | ⟨r, m, e, hm⟩
  case finite => exact zeros _ _
  all_goals cases hu

theorem trans {w : UnpackedFloat} (h : SameParts u v) (h' : SameParts v w) : SameParts u w := by
  rcases h with rfl | ⟨s, t, rfl, rfl⟩
  · exact h'
  · rcases h' with rfl | ⟨_, r, -, rfl⟩ <;> exact zeros _ _

theorem add (h : SameParts u u') (h' : SameParts v v') (spec : Format) :
    SameParts (u.add spec v) (u'.add spec v') := by
  -- first the right summand is exchanged, then the left one
  have hright : SameParts (u.add spec v) (u.add spec v') := by
    rcases h' with rfl | ⟨s, t, rfl, rfl⟩
    · exact .inl rfl
    · exact add_zero u spec s t
  refine hright.trans ?_
  rcases h with rfl | ⟨s, t, rfl, rfl⟩
  · exact .inl rfl
  · exact zero_add v' spec s t

theorem sub (h : SameParts u u') (v : UnpackedFloat) (spec : Format) :
    SameParts (u.sub spec v) (u'.sub spec v) := by
  rcases h with rfl | ⟨s, t, rfl, rfl⟩
  · exact .inl rfl
  · exact zero_sub v spec s t

theorem div (h : SameParts u u') (hv : isSolid v = true) (spec : Format) :
    SameParts (u.div spec v) (u'.div spec v) := by
  rcases h with rfl | ⟨s, t, rfl, rfl⟩
  · exact .inl rfl
  · exact zero_div hv spec s t

/-- Parts that are put together and taken apart again stay the same. -/
theorem pack (h : SameParts u v) :
    SameParts (Float.Model.pack u).unpack (Float.Model.pack v).unpack := by
  rcases h with rfl | ⟨s, t, rfl, rfl⟩
  · exact .inl rfl
  · rw [unpack_pack_zero, unpack_pack_zero]
    exact zeros s t

/-- The rank tells all but the sign of zero. -/
theorem of_rankOf (h : rankOf u = rankOf v) : SameParts u v := by
  rcases u with ⟨⟨⟩⟩ | _ | s | ⟨⟨⟩, m, e, hm⟩ <;> rcases v with ⟨⟨⟩⟩ | _ | t | ⟨⟨⟩, n, f, hn⟩ <;>
    simp [rankOf] at h
  case zero.zero => exact zeros s t
  case finite.negative.finite.negative | finite.positive.finite.positive =>
    obtain ⟨rfl, rfl⟩ := h
    exact .inl rfl
  all_goals exact .inl rfl

end SameParts

/-- Floats with the same parts but for the sign of zero. -/
def Alike (x y : Float) : Prop := SameParts x.toModel.unpack y.toModel.unpack

variable {x x' y y' : Float}

/-- Equal floats are alike. -/
theorem alike_of_beq (h : (x == y) = true) : Alike x y := by
  have heq : (x == y) = x.toModel.unpack.beq y.toModel.unpack := rfl
  obtain ⟨r, hr, hr'⟩ := (beq_iff_rankOf _ _).1 (heq ▸ h)
  exact .of_rankOf (hr.trans hr'.symm)

/-- Alike floats are equal, if they are defined. -/
theorem Alike.beq (h : Alike x y) (hx : x.isNaN = false) : (x == y) = true := by
  have heq : (x == y) = x.toModel.unpack.beq y.toModel.unpack := rfl
  rw [heq, beq_iff_rankOf]
  rcases h with h | ⟨s, t, hs, ht⟩
  · obtain ⟨r, hr⟩ := exists_rank hx
    exact ⟨r, hr, h ▸ hr⟩
  · rw [hs, ht]
    exact ⟨_, rfl, rfl⟩

theorem Alike.add (h : Alike x x') (h' : Alike y y') : Alike (x + y) (x' + y') :=
  (SameParts.add h h' _).pack

theorem Alike.sub (h : Alike x x') (y : Float) : Alike (x - y) (x' - y) :=
  (SameParts.sub h _ _).pack

theorem Alike.div (h : Alike x x') (hy : isSolid y.toModel.unpack = true) :
    Alike (x / y) (x' / y) :=
  (SameParts.div h hy _).pack

end Kanban.Decimal
