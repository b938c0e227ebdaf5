import Kanban.Proofs.Decimal.Defined
import Kanban.Proofs.Projection.Agreement

/-!
# Kanban.Proofs.Projection.Provisional — the position of a card that waits

Until the server answers, a card that was moved has the position that the directive comes to among the
cards shown. Among cards at finite positions that position may be infinite, but it has a place in the
order, and so the columns stay in order.

* `defined_place` — a source of positions gives a place in the order.
* `aim_defined` — so does a directive.
* `definite_begin` — so that a move leaves all positions in order.
-/

namespace Kanban

/-- A source of positions whose gap and memory are not undefined. -/
structure Allocator.Defined (a : Allocator) : Prop where
  gap : a.gap.isNaN = false
  last : a.last.isNaN = false

/-- A position that is a finite number. -/
def Mark.Finite (x : Mark) : Prop := ∃ y, x.number? = some y ∧ Decimal.isFinite y = true

theorem Mark.Finite.definite {x : Mark} (h : x.Finite) : x.Definite := by
  obtain ⟨y, hy, hfin⟩ := h
  exact ⟨y, hy, Decimal.isNaN_of_isFinite hfin⟩

/-- A placement at finite positions, or at an exact one that is not undefined. -/
def Placement.Finite : Placement Float → Prop
  | .exactly x => x.isNaN = false
  | .between x y => Decimal.isFinite x = true ∧ Decimal.isFinite y = true
  | .after x | .before x => Decimal.isFinite x = true
  | .last => True

namespace Allocator

variable {a : Allocator} {now : Float}

theorem defined_new : Defined {} where
  gap := by decide +kernel
  last := by decide +kernel

theorem defined_append (h : a.Defined) (hnow : now.isNaN = false) :
    (a.append now).1.isNaN = false ∧ (a.append now).2.Defined := by
  have hms : (now * 1000.0).isNaN = false := Decimal.isNaN_mul hnow Decimal.isSolid_thousand
  have hone : Decimal.isFinite 1.0 = true := by decide +kernel
  -- Infinity plus one is no NaN: only two infinities of opposite sign would make one.
  have hnext : (a.last + 1.0).isNaN = false :=
    Decimal.isNaN_add h.last (Decimal.isNaN_of_isFinite hone) (.inr hone)
  have hx : (a.append now).1.isNaN = false := by
    unfold append
    dsimp only
    split
    · exact hnext
    · exact hms
  exact ⟨hx, h.gap, hx⟩

/-- A source of positions gives a place in the order. -/
theorem defined_place (h : a.Defined) (hnow : now.isNaN = false) {q : Placement Float}
    (hq : q.Finite) : (a.place now q).1.isNaN = false ∧ (a.place now q).2.Defined := by
  cases q with
  | exactly x => exact ⟨hq, h⟩
  | between x y =>
    obtain ⟨hx, hy⟩ := hq
    have hsum : (x + y).isNaN = false :=
      Decimal.isNaN_add (Decimal.isNaN_of_isFinite hx) (Decimal.isNaN_of_isFinite hy) (.inl hx)
    exact ⟨Decimal.isNaN_div hsum Decimal.isSolid_two, h⟩
  | after x => exact ⟨Decimal.isNaN_add (Decimal.isNaN_of_isFinite hq) h.gap (.inl hq), h⟩
  | before x => exact ⟨Decimal.isNaN_sub (Decimal.isNaN_of_isFinite hq) h.gap (.inl hq), h⟩
  | last => exact defined_append h hnow

end Allocator

namespace Projection

variable {p : Projection} {now : Float} {a b : Allocator} {d : Directive}

/-- A directive whose exact position, if it names one, is not undefined. -/
def Definable (d : Directive) : Prop := ∀ x, d.absolute = some x → x.isNaN = false

/-- Among cards at finite positions a directive comes to a place in the order. -/
theorem aim_defined {ts : List Tile} (hts : ∀ t ∈ ts, t.position.Finite) (ha : a.Defined)
    (hnow : now.isNaN = false) (hd : Definable d) {i : Nat} {x : Float}
    (h : aim now d ts a = (.ok (i, x), b)) : x.isNaN = false ∧ b.Defined := by
  obtain ⟨q, hq, haim⟩ := aim_eq (fun t ht => (hts t ht).definite.isSome) now d a
  have hfin {y : Float} (hy : ∃ t ∈ ts, t.position.number? = some y) :
      Decimal.isFinite y = true := by
    obtain ⟨t, ht, hty⟩ := hy
    obtain ⟨z, hz, hzf⟩ := hts t ht
    exact Option.some.inj (hty.symm.trans hz) ▸ hzf
  -- Neighbours are tiles of the column, so their positions are finite; only an exact position
  -- comes from the directive.
  have hqf : q.Finite := by
    cases q with
    | exactly y => exact hd y hq
    | between y z => exact ⟨hfin hq.1, hfin hq.2⟩
    | after y => exact hfin hq
    | before y => exact hfin hq
    | last => trivial
  rw [haim, Prod.mk.injEq, Except.ok.injEq, Prod.mk.injEq] at h
  obtain ⟨⟨-, rfl⟩, rfl⟩ := h
  exact a.defined_place ha hnow hqf

/-! ## Columns -/

/-- Every position is a finite number. -/
def Finite (p : Projection) : Prop := p.Each fun ts => ∀ t ∈ ts, t.position.Finite

theorem Finite.definite (h : p.Finite) : p.Definite := fun e he t ht => (h e he t ht).definite

theorem hereditary_finite : Hereditary fun ts => ∀ t ∈ ts, t.position.Finite :=
  ⟨by simp, fun hs h t ht => h t (hs.subset ht)⟩

theorem Definite.putIn (h : p.Definite) (stage : Key) (i : Nat) {t : Tile}
    (ht : t.position.Definite) : (p.putIn stage i t).Definite := by
  have hcolumn : ∀ u ∈ p.column stage, u.position.Definite :=
    Each.column h ⟨by simp, fun hs h t ht => h t (hs.subset ht)⟩ stage
  refine Each.resort h stage fun u hu => ?_
  rcases List.eq_or_mem_of_mem_insertIdx ((arrange_perm _).mem_iff.1 hu) with rfl | hu
  · exact ht
  · exact hcolumn u hu

/-- A move that is started among finite positions leaves all positions, and the source of positions,
in order. -/
theorem definite_begin (h : p.Numeric) (hf : p.Finite) (ha : a.Defined) (hnow : now.isNaN = false)
    (hd : Definable d) (card : String) {target : Key} (hn : target.isName = true) :
    (p.begin now card target d a).2.1.Definite ∧ (p.begin now card target d a).2.2.Defined := by
  cases hl : p.locate card with
  | none =>
    rw [begin_absent hl]
    exact ⟨hf.definite, ha⟩
  | some place =>
    cases ht : p.tileAt place with
    | none =>
      unfold begin
      simp only [hl, ht]
      exact ⟨hf.definite, ha⟩
    | some t =>
      obtain ⟨r, j, x, b, hr, -, haim, hb⟩ := begin_eq hl ht hn ((h.takeOut _).column _) now d a
      have hrf : r.Finite :=
        Each.congr (Each.open (Each.takeOut hf hereditary_finite place) hereditary_finite target)
          (by rw [hr])
      obtain ⟨hx, hbd⟩ := aim_defined (Each.column hrf hereditary_finite target) ha hnow hd haim
      have hin : (r.putIn target j { t with position := .real x }).Definite :=
        hrf.definite.putIn target j ⟨x, rfl, hx⟩
      rw [hb]
      exact ⟨Each.congr hin (columns_track _ _), hbd⟩

end Projection

end Kanban
