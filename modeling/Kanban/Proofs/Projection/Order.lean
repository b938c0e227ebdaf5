import Kanban.Projection.Events
import Kanban.Proofs.Decimal.Order
import Kanban.Proofs.Entries
import Mathlib.Data.List.InsertIdx

/-!
# Kanban.Proofs.Projection.Order — columns in display order

Cards that ask for attention come first, and among the rest of a column cards stand by position. A
column that has been put in order is in order if every position in it is a defined number; taking
cards out, opening and dropping columns leaves columns in order.

* `Precedes` — which card may stand before which.
* `precedes_arrange` — a column that has been put in order is in order.
* `arrange_of_precedes`, `sublist_arrange` — what is in order already stays in its order.
* `arrange_arrange` — putting a column in order again changes nothing.
* `Ordered`, `Numeric` — all columns are in order, all positions are numbers.
* `Each` — what all columns have in common, and how operations keep it.
-/

namespace Kanban

/-- A position that has a place in the order: a number other than the undefined one. -/
def Mark.Definite (x : Mark) : Prop := ∃ y, x.number? = some y ∧ y.isNaN = false

theorem Mark.Definite.isSome {x : Mark} (h : x.Definite) : x.number?.isSome := by
  obtain ⟨y, hy, -⟩ := h
  exact Option.isSome_of_eq_some hy

theorem Mark.orders_lt : Sorting.Orders Mark.lt Mark.Definite where
  asymm := by
    rintro x y ⟨v, hv, hvn⟩ ⟨w, hw, hwn⟩ h
    simp only [Mark.lt, hv, hw] at h ⊢
    exact Decimal.orders_below.asymm hvn hwn h
  trans := by
    rintro x y z ⟨v, hv, hvn⟩ ⟨w, hw, hwn⟩ ⟨u, hu, hun⟩ hyx hzy
    simp only [Mark.lt, hv, hw, hu] at hyx hzy ⊢
    exact Decimal.orders_below.trans hvn hwn hun hyx hzy

/-- Of two texts at most one is below the other, and nothing is below what is no text. -/
theorem Mark.asymm_texts (s t : Option String) :
    (match s, t with | some s, some t => decide (s < t) | _, _ => false) = true →
      (match t, s with | some t, some s => decide (t < s) | _, _ => false) = false := by
  intro h
  rcases s with _ | s <;> rcases t with _ | t
  · rfl
  · rfl
  · rfl
  · exact decide_eq_false (lt_asymm (of_decide_eq_true h))

/-- Of two positions at most one is below the other, whatever they are. -/
theorem Mark.asymm_lt (x y : Mark) (h : Mark.lt x y = true) : Mark.lt y x = false := by
  -- positions that are not both numbers compare as texts, if they are
  unfold Mark.lt at h ⊢
  cases hx : x.number? with
  | none =>
    simp only [hx] at h
    cases y.number? <;> exact asymm_texts _ _ h
  | some v =>
    cases hy : y.number? with
    | none =>
      simp only [hx, hy] at h
      exact asymm_texts _ _ h
    | some w =>
      simp only [hx, hy] at h
      exact Decimal.below_asymm h

/-- When a card is not shown before another. -/
theorem CardWith.shownBefore_eq_false_iff {π : Type} {lt : π → π → Bool} {c d : CardWith π} :
    CardWith.shownBefore lt c d = false ↔
      (c.isUnread = true → d.isUnread = true) ∧
        (c.isUnread = d.isUnread → lt c.position d.position = false) := by
  unfold CardWith.shownBefore
  cases c.isUnread <;> cases d.isUnread <;> simp

/-- Of two cards at most one is shown before the other, if that is so for positions. -/
theorem CardWith.asymm_shownBefore {π : Type} {lt : π → π → Bool}
    (h : ∀ x y, lt x y = true → lt y x = false) (c d : CardWith π)
    (hcd : CardWith.shownBefore lt c d = true) : CardWith.shownBefore lt d c = false := by
  have hnot : ¬CardWith.shownBefore lt c d = false := by simp [hcd]
  rw [CardWith.shownBefore_eq_false_iff] at hnot ⊢
  by_cases heq : c.isUnread = d.isUnread
  · have hlt : lt c.position d.position = true := by simpa [heq] using hnot
    exact ⟨fun hdu => heq.trans hdu, fun _ => h _ _ hlt⟩
  · refine ⟨fun hdu => ?_, fun hdc => absurd hdc.symm heq⟩
    by_contra hcu
    exact hnot ⟨fun hcu' => absurd hcu' hcu, fun hcd => absurd hcd heq⟩

/-- Cards whose positions are ordered are ordered by what is shown first. -/
theorem CardWith.orders_shownBefore {π : Type} {lt : π → π → Bool} {P : π → Prop}
    (h : Sorting.Orders lt P) :
    Sorting.Orders (CardWith.shownBefore lt) fun c : CardWith π => P c.position where
  asymm := by
    intro c d hc hd hcd
    have hnot : ¬CardWith.shownBefore lt c d = false := by simp [hcd]
    rw [CardWith.shownBefore_eq_false_iff] at hnot ⊢
    by_cases heq : c.isUnread = d.isUnread
    · -- of equal rank: the positions decide
      have hlt : lt c.position d.position = true := by simpa [heq] using hnot
      exact ⟨fun hdu => heq.trans hdu, fun _ => h.asymm hc hd hlt⟩
    · refine ⟨fun hdu => ?_, fun hdc => absurd hdc.symm heq⟩
      by_contra hcu
      exact hnot ⟨fun hcu' => absurd hcu' hcu, fun hcd => absurd hcd heq⟩
  trans := by
    intro c d e hc hd he hdc hed
    rw [CardWith.shownBefore_eq_false_iff] at hdc hed ⊢
    refine ⟨fun heu => hdc.1 (hed.1 heu), fun hec => ?_⟩
    -- the one between is of the same rank as the outer ones
    have hed' : e.isUnread = d.isUnread :=
      Bool.eq_iff_iff.2 ⟨hed.1, fun hdu => hec.trans (hdc.1 hdu)⟩
    exact h.trans hc hd he (hdc.2 (hed'.symm.trans hec)) (hed.2 hed')

namespace Projection

variable {p : Projection}

/-- Whether a card may stand before another: one that asks for attention before one that does not,
and otherwise one at a lower position. -/
def Precedes (t u : Tile) : Prop :=
  (u.isUnread = true → t.isUnread = true) ∧
    (t.isUnread = u.isUnread →
      ∃ x y, t.position.number? = some x ∧ u.position.number? = some y ∧ x ≤ y)

/-- A card that need not stand behind another may stand before it. -/
theorem precedes_of_not_shownBefore {t u : Tile} (ht : t.position.Definite)
    (hu : u.position.Definite) (h : CardWith.shownBefore Mark.lt u t = false) : Precedes t u := by
  obtain ⟨x, hx, hxn⟩ := ht
  obtain ⟨y, hy, hyn⟩ := hu
  obtain ⟨hunread, hlt⟩ := CardWith.shownBefore_eq_false_iff.1 h
  refine ⟨hunread, fun heq => ⟨x, y, hx, hy, (Decimal.below_eq_false_iff hyn hxn).1 ?_⟩⟩
  simpa [Mark.lt, hx, hy] using hlt heq.symm

/-- A card that may stand before another need not stand behind it. -/
theorem Precedes.not_shownBefore {t u : Tile} (h : Precedes t u) :
    CardWith.shownBefore Mark.lt u t = false := by
  refine CardWith.shownBefore_eq_false_iff.2 ⟨h.1, fun heq => ?_⟩
  obtain ⟨x, y, hx, hy, hxy⟩ := h.2 heq.symm
  simp [Mark.lt, hx, hy, Decimal.below_eq_false_of_le hxy]

/-- What stands before each other both ways is at equal positions. -/
theorem Precedes.antisymm {t u : Tile} (h : Precedes t u) (h' : Precedes u t) :
    t.isUnread = u.isUnread ∧
      ∃ x y, t.position.number? = some x ∧ u.position.number? = some y ∧ x ≤ y ∧ y ≤ x := by
  have heq : t.isUnread = u.isUnread := Bool.eq_iff_iff.2 ⟨h'.1, h.1⟩
  obtain ⟨x, y, hx, hy, hxy⟩ := h.2 heq
  obtain ⟨y', x', hy', hx', hyx⟩ := h'.2 heq.symm
  obtain rfl : x = x' := Option.some.inj (hx.symm.trans hx')
  obtain rfl : y = y' := Option.some.inj (hy.symm.trans hy')
  exact ⟨heq, x, y, hx, hy, hxy, hyx⟩

theorem canArrange_of_ranked {ts : List Tile} (h : ∀ t ∈ ts, t.position.number?.isSome) :
    canArrange ts = true := by
  -- numbers can be compared, whichever tiles are chosen
  have hall (f : Tile → Bool) :
      Mark.comparable ((ts.filter f).map (·.position)) = true := by
    have : ((ts.filter f).map (·.position)).all (·.number?.isSome) = true := by
      simp only [List.all_eq_true, List.mem_map, List.mem_filter]
      rintro x ⟨t, ⟨ht, -⟩, rfl⟩
      exact h t ht
    simp [Mark.comparable, this]
  simp [canArrange, hall]

/-- A column that has been put in order is in order. -/
theorem precedes_arrange {ts : List Tile} (h : ∀ t ∈ ts, t.position.Definite) :
    (arrange ts).Pairwise Precedes := by
  have hmem : ∀ t ∈ displayOrder Mark.lt ts, t.position.Definite := fun t ht =>
    h t ((displayOrder_perm _ _).mem_iff.1 ht)
  have hrise : Sorting.Rises (CardWith.shownBefore Mark.lt) (displayOrder Mark.lt ts) :=
    Sorting.rises_sort (CardWith.orders_shownBefore Mark.orders_lt) h
  rw [arrange, if_pos (canArrange_of_ranked fun t ht => (h t ht).isSome)]
  refine List.Pairwise.imp_of_mem ?_ hrise
  intro t u ht hu htu
  exact precedes_of_not_shownBefore (hmem t ht) (hmem u hu) htu

theorem rises_of_precedes {ts : List Tile} (h : ts.Pairwise Precedes) :
    Sorting.Rises (CardWith.shownBefore Mark.lt) ts :=
  h.imp fun htu => htu.not_shownBefore

/-- A column that is in order stays as it is. -/
theorem arrange_of_precedes {ts : List Tile} (h : ts.Pairwise Precedes) : arrange ts = ts := by
  unfold arrange
  split
  · exact Sorting.sort_of_climbs (rises_of_precedes h).climbs
  · rfl

/-- Cards that are in order stay in that order when the column that they are in is put in order. -/
theorem sublist_arrange {ts part : List Tile} (hts : ∀ t ∈ ts, t.position.Definite)
    (hpart : part.Sublist ts) (h : part.Pairwise Precedes) : part.Sublist (arrange ts) := by
  rw [arrange, if_pos (canArrange_of_ranked fun t ht => (hts t ht).isSome)]
  exact Sorting.sublist_sort (CardWith.orders_shownBefore Mark.orders_lt) hts hpart
    (rises_of_precedes h)

/-- Putting a column in order again changes nothing. -/
theorem arrange_arrange (ts : List Tile) : arrange (arrange ts) = arrange ts := by
  by_cases h : canArrange ts = true
  · have hsorted : arrange ts = displayOrder Mark.lt ts := if_pos h
    rw [hsorted]
    unfold arrange
    split
    · exact Sorting.sort_sort (CardWith.asymm_shownBefore Mark.asymm_lt) ts
    · rfl
  · have hsame : arrange ts = ts := if_neg h
    rw [hsame, hsame]

/-- A column as it is read is shown in order. -/
theorem precedes_displayOrder {cards : List Card} (h : ∀ c ∈ cards, c.position.isNaN = false) :
    ((displayOrder below cards).map Tile.ofCard).Pairwise Precedes := by
  have hmem : ∀ c ∈ displayOrder below cards, c.position.isNaN = false := fun c hc =>
    h c ((displayOrder_perm _ _).mem_iff.1 hc)
  have hrise : Sorting.Rises (CardWith.shownBefore below) (displayOrder below cards) :=
    Sorting.rises_sort (CardWith.orders_shownBefore Decimal.orders_below) h
  refine List.pairwise_map.2 (List.Pairwise.imp_of_mem ?_ hrise)
  intro c d hc hd hcd
  exact precedes_of_not_shownBefore ⟨_, rfl, hmem c hc⟩ ⟨_, rfl, hmem d hd⟩ hcd

/-! ## What all columns have in common -/

/-- Every column has a property. -/
def Each (P : List Tile → Prop) (p : Projection) : Prop := ∀ e ∈ p.columns, P e.2

/-- A property that no column loses when cards are taken out. -/
structure Hereditary (P : List Tile → Prop) : Prop where
  nil : P []
  sublist : ∀ {xs ys : List Tile}, xs.Sublist ys → P ys → P xs

variable {P : List Tile → Prop}

/-- Only columns matter. -/
theorem Each.congr {q : Projection} (h : p.Each P) (hc : q.columns = p.columns) : q.Each P := by
  rw [Each, hc]
  exact h

theorem Each.column (h : p.Each P) (hP : Hereditary P) (stage : Key) : P (p.column stage) := by
  unfold Projection.column
  cases hg : Entries.get? stage p.columns with
  | none => exact hP.nil
  | some ts => exact h _ (Entries.mem_of_get? hg)

theorem Each.setColumn (h : p.Each P) (stage : Key) {ts : List Tile} (hts : P ts) :
    (p.setColumn stage ts).Each P := by
  intro e he
  rcases Entries.mem_of_mem_put he with he | he
  · exact h e he
  · rwa [he]

theorem columns_resort_setColumn (stage : Key) (ts : List Tile) (p : Projection) :
    ((p.setColumn stage ts).resort stage).columns = Entries.put stage (arrange ts) p.columns := by
  simp [resort, Projection.setColumn, Projection.column, Entries.put_put]

/-- A column is set and put in order. -/
theorem Each.resort (h : p.Each P) (stage : Key) {ts : List Tile} (hts : P (arrange ts)) :
    ((p.setColumn stage ts).resort stage).Each P := by
  unfold Each
  rw [columns_resort_setColumn]
  exact h.setColumn stage hts

theorem Each.takeOut (h : p.Each P) (hP : Hereditary P) (place : Key × Nat) :
    (p.takeOut place).Each P :=
  h.setColumn place.1 (hP.sublist (List.eraseIdx_sublist _ _) (h.column hP place.1))

theorem Each.open (h : p.Each P) (hP : Hereditary P) (stage : Key) :
    Each P { p with columns := Entries.ensure stage [] p.columns } := by
  intro e he
  simp only [Entries.ensure] at he
  split at he
  · exact h e he
  · exact h.setColumn stage hP.nil e he

theorem Each.drop (h : p.Each P) (stage : Key) :
    Each P { p with columns := Entries.erase stage p.columns } :=
  fun e he => h e (List.mem_of_mem_filter he)

/-- What all columns have that are shown and what the columns had in which they are shown. -/
theorem each_foldl_put {P : List Tile → Prop} {cs : Entries Key (List Card)}
    (f : List Card → List Tile) (hcs : ∀ e ∈ cs, P (f e.2)) {m : Entries Key (List Tile)}
    (hm : ∀ e ∈ m, P e.2) :
    ∀ e ∈ cs.foldl (fun m e => Entries.put e.1 (f e.2) m) m, P e.2 := by
  induction cs generalizing m with
  | nil => exact hm
  | cons c cs ih =>
    refine ih (fun e he => hcs e (List.mem_cons_of_mem _ he)) fun e he => ?_
    rcases Entries.mem_of_mem_put he with he | he
    · exact hm e he
    · rw [he]
      exact hcs c List.mem_cons_self

/-! ## Columns in order -/

/-- Every column is in order. -/
def Ordered (p : Projection) : Prop := p.Each (·.Pairwise Precedes)

/-- Every position has a place in the order. -/
def Definite (p : Projection) : Prop := p.Each fun ts => ∀ t ∈ ts, t.position.Definite

theorem hereditary_pairwise : Hereditary (·.Pairwise Precedes) :=
  ⟨List.Pairwise.nil, fun hs h => List.Pairwise.sublist hs h⟩

theorem Ordered.congr {q : Projection} (h : p.Ordered) (hc : q.columns = p.columns) : q.Ordered :=
  Each.congr h hc

theorem Ordered.drop {q : Projection} (h : p.Ordered) (stage : Key)
    (hq : q.columns = Entries.erase stage p.columns) : q.Ordered :=
  (Each.drop h stage).congr hq

theorem Ordered.takeOut (h : p.Ordered) (place : Key × Nat) : (p.takeOut place).Ordered :=
  Each.takeOut h hereditary_pairwise place

/-- A column that is set and put in order is in order if what it shows then has a place in the
order. -/
theorem Ordered.resort (h : p.Ordered) {stage : Key} {ts : List Tile}
    (hd : ((p.setColumn stage ts).resort stage).Definite) :
    ((p.setColumn stage ts).resort stage).Ordered := by
  refine Each.resort h stage (precedes_arrange fun t ht => ?_)
  have hmem : (stage, arrange ts) ∈ ((p.setColumn stage ts).resort stage).columns := by
    rw [columns_resort_setColumn]
    exact Entries.mem_of_get? (Entries.get?_put_self _ _ _)
  exact hd _ hmem t ((arrange_perm ts).mem_iff.2 ht)

/-! ## Positions that are numbers -/

/-- Every position is a number. -/
def Numeric (p : Projection) : Prop := p.Each fun ts => ∀ t ∈ ts, t.position.number?.isSome

theorem hereditary_numeric : Hereditary fun ts => ∀ t ∈ ts, t.position.number?.isSome :=
  ⟨by simp, fun hs h t ht => h t (hs.subset ht)⟩

theorem Numeric.column (h : p.Numeric) (stage : Key) :
    ∀ t ∈ p.column stage, t.position.number?.isSome := Each.column h hereditary_numeric stage

theorem Numeric.congr {q : Projection} (h : p.Numeric) (hc : q.columns = p.columns) : q.Numeric :=
  Each.congr h hc

theorem Numeric.takeOut (h : p.Numeric) (place : Key × Nat) : (p.takeOut place).Numeric :=
  Each.takeOut h hereditary_numeric place

theorem Numeric.resort (h : p.Numeric) (stage : Key) {ts : List Tile}
    (hts : ∀ t ∈ ts, t.position.number?.isSome) :
    ((p.setColumn stage ts).resort stage).Numeric :=
  Each.resort h stage fun t ht => hts t ((arrange_perm ts).mem_iff.1 ht)

theorem Numeric.putIn (h : p.Numeric) (stage : Key) (i : Nat) {t : Tile}
    (ht : t.position.number?.isSome) : (p.putIn stage i t).Numeric :=
  h.resort stage fun u hu => by
    rcases List.eq_or_mem_of_mem_insertIdx hu with rfl | hu
    · exact ht
    · exact h.column stage u hu

end Projection

end Kanban
