import Kanban.Proofs.Projection.Order
import Mathlib.Data.List.Perm.Basic

/-!
# Kanban.Proofs.Projection.Columns — what a client shows

The columns of a projection, seen as one collection of tiles. A projection is tidy if each column
holds the tiles of its own stage, no card is shown twice, and all positions are numbers. On a tidy
projection every operation maps the tiles one by one, so its effect on one card can be said
without columns and indices.

* `Tidy` — what a projection that shows a board looks like; `Tidy.of_map` keeps it.
* `tile?_eq_some_iff` — the tile of a card is the one with its id.
* `Landed`, `Gathered` — moving a card and folding a stage, as maps on tiles.
-/

namespace Kanban

namespace Projection

variable {p q : Projection}

/-- The tiles of all columns. -/
def tiles (p : Projection) : List Tile := p.columns.flatMap (·.2)

/-- The tile of a card. -/
def tile? (card : String) (p : Projection) : Option Tile := (p.locate card).bind p.tileAt

/-- A place on a board: a stage and a position. -/
abbrev Spot := Key × Mark

/-- Where a card is shown. -/
def spot? (card : String) (p : Projection) : Option Spot :=
  (p.tile? card).map fun t => (t.stage, t.position)

/-- The tiles of all columns but one. -/
def others (stage : Key) (p : Projection) : List Tile :=
  (Entries.erase stage p.columns).flatMap (·.2)

/-- Every column holds the tiles of its own stage. -/
structure Homed (p : Projection) : Prop where
  keys : (Entries.keys p.columns).Nodup
  home : ∀ e ∈ p.columns, ∀ t ∈ e.2, t.stage = e.1

/-- Every column holds the tiles of its own stage, no card is shown twice, and all columns can be
put in order. -/
structure Tidy (p : Projection) : Prop extends Homed p where
  ids : (p.tiles.map (·.id)).Nodup
  ranked : ∀ t ∈ p.tiles, t.position.number?.isSome
  calm : p.jumbled = false

theorem mem_tiles {t : Tile} : t ∈ p.tiles ↔ ∃ e ∈ p.columns, t ∈ e.2 := by
  simp only [tiles, List.mem_flatMap]

theorem Tidy.numeric (h : p.Tidy) : p.Numeric := fun e he t ht =>
  h.ranked t (mem_tiles.2 ⟨e, he, ht⟩)

theorem column_mem {stage : Key} {t : Tile} (h : t ∈ p.column stage) :
    ∃ ts, Entries.get? stage p.columns = some ts ∧ t ∈ ts := by
  unfold column at h
  cases hg : Entries.get? stage p.columns with
  | none => simp [hg] at h
  | some ts => exact ⟨ts, rfl, by simpa [hg] using h⟩

theorem mem_tiles_of_column {stage : Key} {t : Tile} (h : t ∈ p.column stage) : t ∈ p.tiles := by
  obtain ⟨ts, hg, ht⟩ := column_mem h
  exact mem_tiles.2 ⟨_, Entries.mem_of_get? hg, ht⟩

theorem Homed.stage_of_column (h : p.Homed) {stage : Key} {t : Tile} (ht : t ∈ p.column stage) :
    t.stage = stage := by
  obtain ⟨ts, hg, ht⟩ := column_mem ht
  exact h.home _ (Entries.mem_of_get? hg) t ht

/-- The tiles are those of one column and those of the others. -/
theorem Homed.tiles_perm (h : p.Homed) (stage : Key) :
    p.tiles.Perm (p.column stage ++ p.others stage) := by
  unfold column
  cases hg : Entries.get? stage p.columns with
  | none =>
    rw [others, Entries.erase_of_not_mem (Entries.get?_eq_none_iff.1 hg)]
    exact .refl _
  | some ts => exact (Entries.perm_erase h.keys hg).flatMap_right _

theorem Homed.mem_others (h : p.Homed) {stage : Key} {t : Tile} :
    t ∈ p.others stage ↔ t ∈ p.tiles ∧ t.stage ≠ stage := by
  simp only [others, List.mem_flatMap, mem_tiles, Entries.erase, List.mem_filter]
  constructor
  · rintro ⟨e, ⟨he, hk⟩, ht⟩
    exact ⟨⟨e, he, ht⟩, by rw [h.home e he t ht]; simpa using hk⟩
  · rintro ⟨⟨e, he, ht⟩, hk⟩
    exact ⟨e, ⟨he, by simpa [← h.home e he t ht] using hk⟩, ht⟩

/-! ## Finding a card -/

/-- Where a card is located, there is a tile of the card. -/
theorem tileAt_locate (h : (Entries.keys p.columns).Nodup) {card : String} {k : Key} {i : Nat}
    (hl : p.locate card = some (k, i)) : ∃ t, p.tileAt (k, i) = some t ∧ t.id = card := by
  obtain ⟨ts, hmem, hi, hid⟩ := locate_mem hl
  have hc : p.column k = ts := by rw [column, (Entries.mem_iff_get? h).1 hmem]; rfl
  exact ⟨ts[i], by simp [tileAt, hc, hi], hid⟩

theorem Homed.tileAt_locate (h : p.Homed) {card : String} {k : Key} {i : Nat}
    (hl : p.locate card = some (k, i)) :
    ∃ t, p.tileAt (k, i) = some t ∧ t.id = card ∧ t.stage = k := by
  obtain ⟨t, ht, hid⟩ := Projection.tileAt_locate h.keys hl
  exact ⟨t, ht, hid, h.stage_of_column (List.mem_of_getElem? ht)⟩

theorem mem_tiles_of_tileAt {k : Key} {i : Nat} {t : Tile} (h : p.tileAt (k, i) = some t) :
    t ∈ p.tiles := mem_tiles_of_column (List.mem_of_getElem? h)

/-- A card is located unless no tile has its id. -/
theorem locate_eq_none_iff {card : String} :
    p.locate card = none ↔ ∀ t ∈ p.tiles, t.id ≠ card := by
  -- column by column
  have hin (cs : Entries Key (List Tile)) :
      locateIn card cs = none ↔ ∀ e ∈ cs, ∀ t ∈ e.2, t.id ≠ card := by
    induction cs with
    | nil => simp [locateIn]
    | cons e rest ih =>
      obtain ⟨k, ts⟩ := e
      cases hf : ts.findIdx? (·.id == card) with
      | none =>
        have hts : ∀ t ∈ ts, t.id ≠ card := by
          simpa [List.findIdx?_eq_none_iff] using hf
        simp only [locateIn, hf, ih, List.forall_mem_cons]
        exact ⟨fun hr => ⟨hts, hr⟩, fun hr => hr.2⟩
      | some i =>
        obtain ⟨hi, hid, -⟩ := List.findIdx?_eq_some_iff_getElem.1 hf
        simp only [locateIn, hf, reduceCtorEq, false_iff]
        exact fun hr => hr (k, ts) (by simp) ts[i] (List.getElem_mem hi) (by simpa using hid)
  rw [locate, hin]
  constructor
  · intro hr t ht
    obtain ⟨e, he, hte⟩ := mem_tiles.1 ht
    exact hr e he t hte
  · exact fun hr e he t ht => hr t (mem_tiles.2 ⟨e, he, ht⟩)

theorem Tidy.eq_of_id (h : p.Tidy) {t u : Tile} (ht : t ∈ p.tiles) (hu : u ∈ p.tiles)
    (hid : t.id = u.id) : t = u := List.inj_on_of_nodup_map h.ids ht hu hid

/-- The tile of a card is the one with its id. -/
theorem Tidy.tile?_eq_some_iff (h : p.Tidy) {card : String} {t : Tile} :
    p.tile? card = some t ↔ t ∈ p.tiles ∧ t.id = card := by
  unfold tile?
  cases hl : p.locate card with
  | none =>
    have hn := locate_eq_none_iff.1 hl
    simp only [Option.bind_none, reduceCtorEq, false_iff, not_and]
    exact fun ht => hn t ht
  | some place =>
    obtain ⟨k, i⟩ := place
    obtain ⟨u, hu, hid, -⟩ := h.tileAt_locate hl
    rw [Option.bind_some, hu, Option.some.injEq]
    -- the tile that was found, and as ids are distinct no other
    constructor
    · rintro rfl
      exact ⟨mem_tiles_of_tileAt hu, hid⟩
    · rintro ⟨ht, htid⟩
      exact h.eq_of_id (mem_tiles_of_tileAt hu) ht (hid.trans htid.symm)

theorem Tidy.tile?_eq_none_iff (h : p.Tidy) {card : String} :
    p.tile? card = none ↔ ∀ t ∈ p.tiles, t.id ≠ card := by
  rw [← locate_eq_none_iff]
  unfold tile?
  cases hl : p.locate card with
  | none => simp
  | some place =>
    obtain ⟨u, hu, -⟩ := h.tileAt_locate (k := place.1) (i := place.2) hl
    simp [hu]

/-- The tile of a card after an operation that maps the tiles one by one. -/
theorem Tidy.tile?_of_map (h : p.Tidy) (hq : q.Tidy) {f : Tile → Tile}
    (hf : q.tiles.Perm (p.tiles.map f)) (hid : ∀ t, (f t).id = t.id) (card : String) :
    q.tile? card = (p.tile? card).map f := by
  cases ht : p.tile? card with
  | none =>
    rw [Option.map_none, hq.tile?_eq_none_iff]
    intro u hu
    obtain ⟨t, htm, rfl⟩ := List.mem_map.1 (hf.mem_iff.1 hu)
    rw [hid]
    exact h.tile?_eq_none_iff.1 ht t htm
  | some t =>
    obtain ⟨htm, htid⟩ := h.tile?_eq_some_iff.1 ht
    rw [Option.map_some, hq.tile?_eq_some_iff, hf.mem_iff]
    exact ⟨List.mem_map_of_mem htm, (hid t).trans htid⟩

/-- An operation that maps the tiles one by one, and keeps ids and numbers, keeps the projection
tidy. -/
theorem Tidy.of_map (h : p.Tidy) (hq : q.Homed) (hj : q.jumbled = false) {f : Tile → Tile}
    (hf : q.tiles.Perm (p.tiles.map f)) (hid : ∀ t, (f t).id = t.id)
    (hr : ∀ t ∈ p.tiles, (f t).position.number?.isSome) : q.Tidy where
  toHomed := hq
  ids := by
    have hmap : (p.tiles.map f).map (·.id) = p.tiles.map (·.id) := by
      rw [List.map_map]
      exact List.map_congr_left fun t _ => hid t
    rw [(hf.map _).nodup_iff, hmap]
    exact h.ids
  ranked := by
    intro u hu
    obtain ⟨t, ht, rfl⟩ := List.mem_map.1 (hf.mem_iff.1 hu)
    exact hr t ht
  calm := hj

/-- A projection with the same columns and the same order is as tidy. -/
theorem Tidy.congr (h : p.Tidy) (hc : q.columns = p.columns) (hj : q.jumbled = p.jumbled) :
    q.Tidy where
  keys := hc ▸ h.keys
  home := hc ▸ h.home
  ids := by rw [tiles, hc]; exact h.ids
  ranked := by rw [tiles, hc]; exact h.ranked
  calm := hj.trans h.calm

theorem tile?_congr (hc : q.columns = p.columns) (card : String) : q.tile? card = p.tile? card := by
  simp only [tile?, locate, hc]
  cases locateIn card p.columns with
  | none => rfl
  | some place => simp [tileAt, column, hc]

/-! ## Changing one column -/

/-- Columns that hold tiles of their own stage only. -/
theorem Homed.setColumn (h : p.Homed) {stage : Key} {ts : List Tile}
    (hts : ∀ t ∈ ts, t.stage = stage) : (p.setColumn stage ts).Homed where
  keys := Entries.nodup_put h.keys stage ts
  home := by
    intro e he t ht
    rcases (Entries.mem_put h.keys).1 he with rfl | ⟨he, -⟩
    · exact hts t ht
    · exact h.home e he t ht

theorem tiles_setColumn (h : p.Homed) (stage : Key) (ts : List Tile) :
    (p.setColumn stage ts).tiles.Perm (ts ++ p.others stage) :=
  (Entries.put_perm h.keys stage ts).flatMap_right _

@[simp] theorem column_setColumn_self (stage : Key) (ts : List Tile) (p : Projection) :
    (p.setColumn stage ts).column stage = ts := by
  simp [column, setColumn]

theorem Homed.resort (h : p.Homed) (stage : Key) : (p.resort stage).Homed := by
  have hset : (p.setColumn stage (arrange (p.column stage))).Homed :=
    h.setColumn fun t ht => h.stage_of_column ((arrange_perm _).mem_iff.1 ht)
  exact ⟨hset.keys, hset.home⟩

theorem tiles_resort (h : p.Homed) (stage : Key) : (p.resort stage).tiles.Perm p.tiles :=
  (tiles_setColumn h stage _).trans
    (((arrange_perm _).append_right _).trans (h.tiles_perm stage).symm)

theorem jumbled_resort {stage : Key} (h : ∀ t ∈ p.column stage, t.position.number?.isSome) :
    (p.resort stage).jumbled = false := by
  simp [Projection.resort, canArrange_of_ranked h]

/-! ## Taking out and putting in -/

theorem Homed.takeOut (h : p.Homed) (place : Key × Nat) : (p.takeOut place).Homed :=
  h.setColumn fun _ ht => h.stage_of_column (List.mem_of_mem_eraseIdx ht)

/-- What is left when a card is taken out. -/
theorem tiles_takeOut (h : p.Homed) {k : Key} {i : Nat} {t : Tile}
    (ht : p.tileAt (k, i) = some t) : p.tiles.Perm (t :: (p.takeOut (k, i)).tiles) := by
  obtain ⟨hi, rfl⟩ := List.getElem?_eq_some_iff.1 ht
  -- the column is the tile and what is left of it; the other columns stay
  refine (h.tiles_perm k).trans ?_
  refine (((List.getElem_cons_eraseIdx_perm hi).symm.append_right _).trans ?_)
  exact ((tiles_setColumn h k _).symm.cons _)

theorem homed_inserted (h : p.Homed) (stage : Key) (i : Nat) (t : Tile) :
    (p.setColumn stage ((p.column stage).insertIdx i { t with stage })).Homed :=
  h.setColumn fun u hu => by
    rcases List.eq_or_mem_of_mem_insertIdx hu with rfl | hu
    · rfl
    · exact h.stage_of_column hu

theorem Homed.putIn (h : p.Homed) (stage : Key) (i : Nat) (t : Tile) :
    (p.putIn stage i t).Homed := (homed_inserted h stage i t).resort stage

/-- What is there when a card is put in. -/
theorem tiles_putIn (h : p.Homed) {stage : Key} {i : Nat} (hi : i ≤ (p.column stage).length)
    (t : Tile) : (p.putIn stage i t).tiles.Perm ({ t with stage } :: p.tiles) := by
  refine (tiles_resort (homed_inserted h stage i t) stage).trans ?_
  refine (tiles_setColumn h stage _).trans ?_
  refine ((List.perm_insertIdx _ _ hi).append_right _).trans ?_
  exact ((h.tiles_perm stage).symm.cons _)

theorem jumbled_putIn {stage : Key} {i : Nat} {t : Tile}
    (h : ∀ u ∈ p.column stage, u.position.number?.isSome) (ht : t.position.number?.isSome) :
    (p.putIn stage i t).jumbled = false := by
  refine jumbled_resort fun u hu => ?_
  rw [column_setColumn_self] at hu
  rcases List.eq_or_mem_of_mem_insertIdx hu with rfl | hu
  · exact ht
  · exact h u hu

/-! ## Moving one card -/

/-- A tile with the card moved to a place, if it is a tile of the card. -/
def relocate (card : String) (stage : Key) (x : Mark) (t : Tile) : Tile :=
  if t.id = card then { t with stage, position := x } else t

@[simp] theorem id_relocate (card : String) (stage : Key) (x : Mark) (t : Tile) :
    (relocate card stage x t).id = t.id := by
  unfold relocate
  split <;> rfl

theorem ranked_relocate {card : String} {stage : Key} {x : Mark} (hx : x.number?.isSome)
    (h : p.Tidy) : ∀ t ∈ p.tiles, (relocate card stage x t).position.number?.isSome := by
  intro t ht
  unfold relocate
  split
  · exact hx
  · exact h.ranked t ht

/-- A card that is not shown is not moved. -/
theorem map_relocate_of_absent {card : String} {ts : List Tile} (h : ∀ t ∈ ts, t.id ≠ card)
    (stage : Key) (x : Mark) : ts.map (relocate card stage x) = ts := by
  refine (List.map_congr_left fun t ht => ?_).trans (List.map_id ts)
  exact if_neg (h t ht)

/-- Moving a card is replacing one tile and leaving the rest. -/
theorem map_relocate_perm (h : p.Tidy) {t : Tile} {rest : List Tile}
    (hp : p.tiles.Perm (t :: rest)) (stage : Key) (x : Mark) :
    (p.tiles.map (relocate t.id stage x)).Perm ({ t with stage, position := x } :: rest) := by
  have hnd : ((t :: rest).map (·.id)).Nodup := (hp.map _).nodup_iff.1 h.ids
  -- ids are distinct, so the rest holds no tile of the card
  have hrest : ∀ u ∈ rest, u.id ≠ t.id := by
    intro u hu heq
    rw [List.map_cons, List.nodup_cons] at hnd
    exact hnd.1 (heq ▸ List.mem_map_of_mem hu)
  refine (hp.map _).trans ?_
  rw [List.map_cons, map_relocate_of_absent hrest]
  simp [relocate]

/-- What moving a card from its place into another column comes to; between the two, columns may be
opened or dropped as long as no tile is lost. -/
structure Landed (card : String) (stage : Key) (x : Mark) (p q : Projection) : Prop where
  homed : q.Homed
  tiles : q.tiles.Perm (p.tiles.map (relocate card stage x))
  calm : q.jumbled = false
  ordered : p.Ordered → q.Definite → q.Ordered

theorem Landed.tidy {card : String} {stage : Key} {x : Mark} (hl : Landed card stage x p q)
    (h : p.Tidy) (hx : x.number?.isSome) : q.Tidy :=
  h.of_map hl.homed hl.calm hl.tiles (id_relocate card stage x) (ranked_relocate hx h)

theorem Landed.tile? {card : String} {stage : Key} {x : Mark} (hl : Landed card stage x p q)
    (h : p.Tidy) (hx : x.number?.isSome) (d : String) :
    q.tile? d = (p.tile? d).map (relocate card stage x) :=
  h.tile?_of_map (hl.tidy h hx) hl.tiles (id_relocate card stage x) d

/-- Moving a card changes where it is shown, if it is shown at all, and moves no other card. -/
theorem Landed.spot? {card : String} {stage : Key} {x : Mark} (hl : Landed card stage x p q)
    (h : p.Tidy) (hx : x.number?.isSome) (d : String) :
    q.spot? d = if d = card then (p.spot? card).map fun _ => (stage, x) else p.spot? d := by
  rw [Projection.spot?, hl.tile? h hx]
  cases ht : p.tile? d with
  | none =>
    by_cases hd : d = card
    · subst hd
      simp [Projection.spot?, ht]
    · simp [Projection.spot?, ht, hd]
  | some t =>
    have hid := (h.tile?_eq_some_iff.1 ht).2
    by_cases hd : d = card
    · subst hd
      simp [Projection.spot?, ht, relocate, hid]
    · have hne : t.id ≠ card := hid ▸ hd
      simp [Projection.spot?, ht, relocate, hd, hne]

theorem spot?_congr (hc : q.columns = p.columns) (card : String) : q.spot? card = p.spot? card := by
  rw [spot?, spot?, tile?_congr hc]

/-- Moving a card that is not shown is doing nothing. -/
theorem landed_refl (h : p.Tidy) {card : String} (hc : p.locate card = none) (stage : Key)
    (x : Mark) : Landed card stage x p p where
  homed := h.toHomed
  tiles := by rw [map_relocate_of_absent (locate_eq_none_iff.1 hc)]
  calm := h.calm
  ordered := fun ho _ => ho

theorem landed_putIn (h : p.Tidy) {k : Key} {i : Nat} {t : Tile} (ht : p.tileAt (k, i) = some t)
    (hq : q.Homed) (hqt : q.tiles.Perm (p.takeOut (k, i)).tiles)
    (hqo : (p.takeOut (k, i)).Ordered → q.Ordered) {stage : Key} {j : Nat}
    (hj : j ≤ (q.column stage).length) {x : Mark} (hx : x.number?.isSome) :
    Landed t.id stage x p (q.putIn stage j { t with position := x }) where
  homed := hq.putIn stage j _
  tiles := by
    have hp := tiles_takeOut h.toHomed ht
    exact (tiles_putIn hq hj _).trans ((hqt.cons _).trans (map_relocate_perm h hp stage x).symm)
  calm := by
    refine jumbled_putIn (fun u hu => ?_) hx
    have hmem : u ∈ (p.takeOut (k, i)).tiles := hqt.mem_iff.1 (mem_tiles_of_column hu)
    exact h.ranked u ((tiles_takeOut h.toHomed ht).mem_iff.2 (List.mem_cons_of_mem _ hmem))
  ordered := fun ho hd => (hqo (ho.takeOut (k, i))).resort hd

theorem landed_set (h : p.Tidy) {k : Key} {i : Nat} {t : Tile} (ht : p.tileAt (k, i) = some t)
    {x : Mark} (hx : x.number?.isSome) :
    Landed t.id k x p
      ((p.setColumn k ((p.column k).set i { t with position := x })).resort k) := by
  obtain ⟨hi, hti⟩ := List.getElem?_eq_some_iff.1 ht
  have htc : t ∈ p.column k := hti ▸ List.getElem_mem hi
  have htk : t.stage = k := h.stage_of_column htc
  -- whatever is in the column now was there, or is the tile at its new position
  have hset : ∀ u ∈ (p.column k).set i { t with position := x },
      u = { t with position := x } ∨ u ∈ p.column k := fun u hu =>
    (List.mem_or_eq_of_mem_set hu).symm
  have hhome : (p.setColumn k ((p.column k).set i { t with position := x })).Homed := by
    refine h.toHomed.setColumn fun u hu => ?_
    rcases hset u hu with rfl | hu
    · exact htk
    · exact h.stage_of_column hu
  refine ⟨hhome.resort k, ?_, jumbled_resort fun u hu => ?_, fun ho hd => ho.resort hd⟩
  · refine (tiles_resort hhome k).trans ((tiles_setColumn h.toHomed k _).trans ?_)
    have hcol : (p.column k).Perm (t :: (p.column k).eraseIdx i) :=
      hti ▸ (List.getElem_cons_eraseIdx_perm hi).symm
    have hnew : ((p.column k).set i { t with position := x }).Perm
        ({ t with position := x } :: (p.column k).eraseIdx i) := by
      have hi' : i < ((p.column k).set i { t with position := x }).length := by simpa using hi
      have hperm := (List.getElem_cons_eraseIdx_perm hi').symm
      rwa [List.getElem_set_self, List.eraseIdx_set_eq] at hperm
    have hp : p.tiles.Perm (t :: ((p.column k).eraseIdx i ++ p.others k)) :=
      (h.tiles_perm k).trans (hcol.append_right _)
    refine (hnew.append_right _).trans ?_
    have hmap := (map_relocate_perm h hp k x).symm
    subst htk
    exact hmap
  · rw [column_setColumn_self] at hu
    rcases hset u hu with rfl | hu
    · exact hx
    · exact h.ranked u (mem_tiles_of_column hu)

/-- Placing a card, as a map on tiles. -/
theorem landed_place (h : p.Tidy) (card : String) (stage : Key) {x : Mark}
    (hx : x.number?.isSome) : Landed card stage x p (p.place card stage x) := by
  unfold place
  cases hl : p.locate card with
  | none => exact landed_refl h hl stage x
  | some loc =>
    obtain ⟨k, i⟩ := loc
    obtain ⟨t, ht, rfl, -⟩ := h.tileAt_locate hl
    simp only [ht]
    by_cases hk : k = stage
    · -- within a column the tile is set, from column to column it is taken out and put in
      subst hk
      simp only [if_true]
      exact landed_set h ht hx
    · simp only [hk, if_false]
      exact landed_putIn h ht (h.toHomed.takeOut _) (.refl _) id (Nat.le_refl _) hx

/-! ## Opening and dropping columns -/

theorem Homed.congr (h : p.Homed) (hc : q.columns = p.columns) : q.Homed :=
  ⟨hc ▸ h.keys, hc ▸ h.home⟩

theorem tiles_congr (hc : q.columns = p.columns) : q.tiles = p.tiles := by rw [tiles, hc, tiles]

/-- Opening a column shows no other tiles. -/
theorem Homed.open (h : p.Homed) (stage : Key) :
    Homed { p with columns := Entries.ensure stage [] p.columns } where
  keys := Entries.nodup_ensure h.keys stage []
  home := by
    intro e he t ht
    simp only [Entries.ensure] at he
    -- an open column stays, a new one is empty
    split at he
    · exact h.home e he t ht
    · rcases (Entries.mem_put h.keys).1 he with rfl | ⟨he, -⟩
      · simp at ht
      · exact h.home e he t ht

theorem tiles_open (p : Projection) (stage : Key) :
    tiles { p with columns := Entries.ensure stage [] p.columns } = p.tiles := by
  simp only [tiles, Entries.ensure]
  split
  · rfl
  · rename_i hn
    rw [Entries.put_of_not_mem (by simpa using hn)]
    simp

theorem column_open (stage : Key) (p : Projection) (k : Key) :
    column k { p with columns := Entries.ensure stage [] p.columns } = p.column k := by
  simp only [column, Entries.ensure]
  split
  · rfl
  · rename_i hn
    by_cases hk : k = stage
    · have hnone : Entries.get? stage p.columns = none :=
        Entries.get?_eq_none_iff.2 (by simpa using hn)
      simp [hk, hnone]
    · rw [Entries.get?_put_of_ne hk]

/-- Dropping a column drops its tiles. -/
theorem Homed.drop (h : p.Homed) (stage : Key) :
    Homed { p with columns := Entries.erase stage p.columns } where
  keys := Entries.nodup_erase h.keys stage
  home := fun e he => h.home e (List.mem_of_mem_filter he)

/-- Taking a card back to where a move took it from, as a map on tiles. -/
theorem landed_restore (h : p.Tidy) {m : Move} (hx : m.fromMark.number?.isSome) :
    Landed m.card m.fromStage m.fromMark p (p.restore m) := by
  unfold restore
  cases hl : p.locate m.card with
  | none => exact landed_refl h hl _ _
  | some loc =>
    obtain ⟨k, i⟩ := loc
    obtain ⟨t, ht, hid, -⟩ := h.tileAt_locate hl
    simp only [withdraw, ht, ← hid]
    have hout := h.toHomed.takeOut (k, i)
    split
    · -- the column that the card leaves is empty now and goes
      rename_i hk
      simp only [Bool.and_eq_true, List.isEmpty_iff] at hk
      have hperm := hout.tiles_perm k
      rw [hk.1, List.nil_append] at hperm
      exact landed_putIn h ht (hout.drop k) hperm.symm (fun ho => ho.drop k rfl)
        (Nat.min_le_right _ _) hx
    · exact landed_putIn h ht hout (.refl _) id (Nat.min_le_right _ _) hx

/-! ## Aiming -/

/-- Where a placement among some cards comes from: the exact position that the directive names, or
the positions of cards. -/
theorem placement_mem {π : Type} (ts : List (CardWith π)) (d : Directive) :
    match d.placement ts with
    | .exactly x => d.absolute = some x
    | .between x y => (∃ t ∈ ts, t.position = x) ∧ ∃ t ∈ ts, t.position = y
    | .after x | .before x => ∃ t ∈ ts, t.position = x
    | .last => True := by
  -- neighbours are found in the list
  have hfind {i : Option String} {t : CardWith π} (hn : Directive.neighbour ts i = some t) :
      t ∈ ts := by
    obtain ⟨k, -, hk⟩ := Option.bind_eq_some_iff.1 hn
    exact List.mem_of_find?_eq_some hk
  unfold Directive.placement
  cases d.absolute with
  | some x => rfl
  | none =>
    dsimp only
    cases ha : Directive.neighbour ts d.after with
    | none =>
      cases hb : Directive.neighbour ts d.before with
      | none => trivial
      | some u => exact ⟨u, hfind hb, rfl⟩
    | some t =>
      cases hb : Directive.neighbour ts d.before with
      | none => exact ⟨t, hfind ha, rfl⟩
      | some u => exact ⟨⟨t, hfind ha, rfl⟩, u, hfind hb, rfl⟩

/-- Whether a placement is at the position that a directive names, or at positions of cards. -/
def IsAmong (ts : List Tile) (d : Directive) : Placement Float → Prop
  | .exactly x => d.absolute = some x
  | .between x y =>
    (∃ t ∈ ts, t.position.number? = some x) ∧ ∃ t ∈ ts, t.position.number? = some y
  | .after x | .before x => ∃ t ∈ ts, t.position.number? = some x
  | .last => True

/-- A placement with the numbers that its marks stand for. -/
def numbers? : Placement Mark → Option (Placement Float)
  | .exactly x => some (.exactly x)
  | .between x y => do some (.between (← x.number?) (← y.number?))
  | .after x => .after <$> x.number?
  | .before x => .before <$> x.number?
  | .last => some .last

/-- Among numbers a directive comes to a placement with numbers, at which the source of positions is
asked. -/
theorem aim_numbers {ts : List Tile} (h : ∀ t ∈ ts, t.position.number?.isSome) (now : Float)
    (d : Directive) (a : Allocator) :
    ∃ q, numbers? (d.placement ts) = some q ∧
      aim now d ts a =
        (.ok (d.insertIndex (fun x y => Mark.lt (.real y) x) ts, (a.place now q).1),
          (a.place now q).2) := by
  have hnum {x : Mark} (hx : ∃ t ∈ ts, t.position = x) : ∃ y, x.number? = some y := by
    obtain ⟨t, ht, rfl⟩ := hx
    exact Option.isSome_iff_exists.1 (h t ht)
  have hmem := placement_mem ts d
  unfold aim
  dsimp only
  -- the second goal: the positions that are looked at on the way are numbers
  rw [if_neg]
  · cases hp : d.placement ts with
    | exactly x => exact ⟨.exactly x, rfl, rfl⟩
    | last => exact ⟨.last, rfl, rfl⟩
    | between x y =>
      rw [hp] at hmem
      obtain ⟨v, hv⟩ := hnum hmem.1
      obtain ⟨w, hw⟩ := hnum hmem.2
      simp only [hv, hw, numbers?]
      exact ⟨.between v w, rfl, rfl⟩
    | after x | before x =>
      rw [hp] at hmem
      obtain ⟨v, hv⟩ := hnum hmem
      simp only [hv, numbers?]
      exact ⟨_, rfl, rfl⟩
  · rw [Bool.not_eq_true, List.any_eq_false]
    intro t ht
    have hmem : t ∈ ts := by
      split at ht
      · simp at ht
      · exact List.mem_of_mem_take ht
    obtain ⟨y, hy⟩ := hnum ⟨t, hmem, rfl⟩
    simp [hy]

theorem isAmong_numbers {ts : List Tile} {d : Directive} {q : Placement Float}
    (hq : numbers? (d.placement ts) = some q) : IsAmong ts d q := by
  have hmem := placement_mem ts d
  have hnum {x : Mark} {v : Float} (hx : ∃ t ∈ ts, t.position = x) (hv : x.number? = some v) :
      ∃ t ∈ ts, t.position.number? = some v := by
    obtain ⟨t, ht, rfl⟩ := hx
    exact ⟨t, ht, hv⟩
  cases hp : d.placement ts with
  | exactly x =>
    rw [hp] at hmem hq
    obtain rfl := Option.some.inj hq
    exact hmem
  | last =>
    rw [hp] at hq
    obtain rfl := Option.some.inj hq
    trivial
  | between x y =>
    rw [hp] at hmem hq
    obtain ⟨v, hv, w, hw, rfl⟩ : ∃ v, x.number? = some v ∧ ∃ w, y.number? = some w ∧
        .between v w = q := by simpa [numbers?, Option.bind_eq_some_iff] using hq
    exact ⟨hnum hmem.1 hv, hnum hmem.2 hw⟩
  | after x =>
    rw [hp] at hmem hq
    obtain ⟨v, hv, rfl⟩ := Option.map_eq_some_iff.1 hq
    exact hnum hmem hv
  | before x =>
    rw [hp] at hmem hq
    obtain ⟨v, hv, rfl⟩ := Option.map_eq_some_iff.1 hq
    exact hnum hmem hv

/-- Among numbers a directive comes to a placement, at which the source of positions is asked. -/
theorem aim_eq {ts : List Tile} (h : ∀ t ∈ ts, t.position.number?.isSome) (now : Float)
    (d : Directive) (a : Allocator) :
    ∃ q, IsAmong ts d q ∧
      aim now d ts a =
        (.ok (d.insertIndex (fun x y => Mark.lt (.real y) x) ts, (a.place now q).1),
          (a.place now q).2) := by
  obtain ⟨q, hq, haim⟩ := aim_numbers h now d a
  exact ⟨q, isAmong_numbers hq, haim⟩

/-- Among numbers every directive finds a position, at a place of the list. -/
theorem aim_ok {ts : List Tile} (h : ∀ t ∈ ts, t.position.number?.isSome) (now : Float)
    (d : Directive) (a : Allocator) :
    ∃ i x b, aim now d ts a = (.ok (i, x), b) ∧ i ≤ ts.length := by
  obtain ⟨q, -, haim⟩ := aim_eq h now d a
  exact ⟨_, _, _, haim, Directive.insertIndex_le _ _ _⟩

/-! ## Folding a stage -/

/-- A tile with its stage folded into another, if it is in that stage. -/
def reseat (stage fallback : Key) (t : Tile) : Tile :=
  if t.stage = stage then { t with stage := fallback } else t

@[simp] theorem id_reseat (stage fallback : Key) (t : Tile) : (reseat stage fallback t).id = t.id := by
  unfold reseat
  split <;> rfl

@[simp] theorem position_reseat (stage fallback : Key) (t : Tile) :
    (reseat stage fallback t).position = t.position := by
  unfold reseat
  split <;> rfl

/-- The tiles of a folded stage come behind those that the other stage has. -/
theorem tiles_gathered (h : p.Homed) (stage fallback : Key)
    (hq : q.columns = Entries.erase stage p.columns) :
    ((p.column stage).map (fun t => ({ t with stage := fallback } : Tile)) ++ q.tiles).Perm
      (p.tiles.map (reseat stage fallback)) := by
  have hqt : q.tiles = p.others stage := by rw [tiles, hq, others]
  -- all tiles of the stage change, and no other tile does
  have hmoved : (p.column stage).map (fun t => ({ t with stage := fallback } : Tile)) =
      (p.column stage).map (reseat stage fallback) :=
    List.map_congr_left fun t ht => (if_pos (h.stage_of_column ht)).symm
  have hrest : (p.others stage).map (reseat stage fallback) = p.others stage := by
    refine (List.map_congr_left fun t ht => ?_).trans (List.map_id _)
    exact if_neg (h.mem_others.1 ht).2
  rw [hqt, hmoved]
  nth_rewrite 1 [← hrest]
  rw [← List.map_append]
  exact ((h.tiles_perm stage).map _).symm

/-- A place with its stage folded into another. -/
def Spot.reseat (stage fallback : Key) (z : Spot) : Spot :=
  if z.1 = stage then (fallback, z.2) else z

theorem homed_folded (h : p.Homed) (stage : Key) (hq : q.columns = Entries.erase stage p.columns) :
    q.Homed := (h.drop stage).congr hq

/-- What folding a stage comes to on tiles. -/
structure Gathered (stage fallback : Key) (p q : Projection) : Prop where
  homed : q.Homed
  tiles : q.tiles.Perm (p.tiles.map (Projection.reseat stage fallback))
  calm : q.jumbled = false
  ordered : p.Ordered → q.Definite → q.Ordered

theorem gathered_none (h : p.Tidy) {stage : Key} (hm : p.column stage = []) (fallback : Key)
    (hq : q.columns = Entries.erase stage p.columns) (hj : q.jumbled = p.jumbled) :
    Gathered stage fallback p q where
  homed := homed_folded h.toHomed stage hq
  tiles := by
    have hg := tiles_gathered h.toHomed stage fallback hq
    rwa [hm, List.map_nil, List.nil_append] at hg
  calm := hj.trans h.calm
  ordered := fun ho _ => ho.drop stage hq

theorem gathered_some (h : p.Tidy) (stage fallback : Key)
    (hq : q.columns = Entries.erase stage p.columns) :
    Gathered stage fallback p
      ((q.setColumn fallback (q.column fallback ++
        (p.column stage).map ({ · with stage := fallback }))).resort fallback) := by
  have hqh := homed_folded h.toHomed stage hq
  have hset : (q.setColumn fallback (q.column fallback ++
      (p.column stage).map ({ · with stage := fallback }))).Homed := by
    refine hqh.setColumn fun t ht => ?_
    rcases List.mem_append.1 ht with ht | ht
    · exact hqh.stage_of_column ht
    · obtain ⟨u, -, rfl⟩ := List.mem_map.1 ht
      rfl
  -- the order of the two parts does not matter
  have hperm : (q.setColumn fallback (q.column fallback ++
      (p.column stage).map ({ · with stage := fallback }))).tiles.Perm
        (p.tiles.map (Projection.reseat stage fallback)) := by
    refine (tiles_setColumn hqh fallback _).trans ?_
    refine (List.perm_append_comm.append_right _).trans ?_
    rw [List.append_assoc]
    refine ((hqh.tiles_perm fallback).symm.append_left _).trans ?_
    exact tiles_gathered h.toHomed stage fallback hq
  refine ⟨hset.resort fallback, (tiles_resort hset fallback).trans hperm, jumbled_resort ?_,
    fun ho hd => (ho.drop stage hq).resort hd⟩
  intro t ht
  obtain ⟨u, hu, rfl⟩ := List.mem_map.1 (hperm.mem_iff.1 (mem_tiles_of_column ht))
  rw [position_reseat]
  exact h.ranked u hu

theorem Gathered.tidy {stage fallback : Key} (hg : Gathered stage fallback p q) (h : p.Tidy) :
    q.Tidy :=
  h.of_map hg.homed hg.calm hg.tiles (id_reseat stage fallback) fun t ht => by
    rw [position_reseat]
    exact h.ranked t ht

/-- Folding a stage carries every place. -/
theorem Gathered.spot? {stage fallback : Key} (hg : Gathered stage fallback p q) (h : p.Tidy)
    (d : String) : q.spot? d = (p.spot? d).map (Spot.reseat stage fallback) := by
  -- tile by tile, stages change and positions stay
  rw [Projection.spot?, h.tile?_of_map (hg.tidy h) hg.tiles (id_reseat stage fallback),
    Projection.spot?, Option.map_map, Option.map_map]
  congr 1
  funext t
  simp only [Function.comp_apply, Projection.reseat, Spot.reseat]
  split <;> rfl

/-! ## Columns as read -/

/-- The cards of columns as they were read. -/
def cardsOf (cs : Entries Key (List Card)) : List Card := cs.flatMap (·.2)

/-- Columns as they are read: every card once, under its stage. -/
structure Filed (cs : Entries Key (List Card)) : Prop where
  keys : (Entries.keys cs).Nodup
  home : ∀ e ∈ cs, ∀ c ∈ e.2, c.stage = e.1
  ids : ((cardsOf cs).map (·.id)).Nodup

/-- Showing columns one after the other in columns that are empty. -/
theorem tiles_foldl_put {cs : Entries Key (List Card)} (hk : (Entries.keys cs).Nodup)
    {m : Entries Key (List Tile)} (hm : (Entries.keys m).Nodup)
    (hempty : ∀ k ∈ Entries.keys cs, (Entries.get? k m).getD [] = []) (f : List Card → List Tile) :
    ((cs.foldl (fun m e => Entries.put e.1 (f e.2) m) m).flatMap (·.2)).Perm
      (m.flatMap (·.2) ++ cs.flatMap fun e => f e.2) := by
  induction cs generalizing m with
  | nil => simp
  | cons e cs ih =>
    rw [Entries.keys_cons, List.nodup_cons] at hk
    have hput : ((Entries.put e.1 (f e.2) m).flatMap (·.2)).Perm (m.flatMap (·.2) ++ f e.2) := by
      -- the column was empty or was not there, so nothing is overwritten
      have hold : (m.flatMap (·.2)).Perm ((Entries.erase e.1 m).flatMap (·.2)) := by
        have he := hempty e.1 (by simp)
        cases hg : Entries.get? e.1 m with
        | none => rw [Entries.erase_of_not_mem (Entries.get?_eq_none_iff.1 hg)]
        | some ts =>
          have hp := (Entries.perm_erase hm hg).flatMap_right (·.2)
          rw [hg, Option.getD_some] at he
          simpa [he] using hp
      refine ((Entries.put_perm hm e.1 (f e.2)).flatMap_right _).trans ?_
      exact List.perm_append_comm.trans (hold.symm.append_right _)
    have hrest : ∀ k ∈ Entries.keys cs,
        (Entries.get? k (Entries.put e.1 (f e.2) m)).getD [] = [] := by
      intro k hkc
      have hne : k ≠ e.1 := fun heq => hk.1 (heq ▸ hkc)
      rw [Entries.get?_put_of_ne hne]
      exact hempty k (List.mem_cons_of_mem _ hkc)
    refine (ih hk.2 (Entries.nodup_put hm _ _) hrest).trans ?_
    rw [List.flatMap_cons, ← List.append_assoc]
    exact hput.append_right _

theorem home_foldl_put (cs : Entries Key (List Card)) (f : List Card → List Tile)
    {m : Entries Key (List Tile)} (hm : (Entries.keys m).Nodup)
    (hcs : ∀ e ∈ cs, ∀ t ∈ f e.2, t.stage = e.1) (hmt : ∀ e ∈ m, ∀ t ∈ e.2, t.stage = e.1) :
    (Entries.keys (cs.foldl (fun m e => Entries.put e.1 (f e.2) m) m)).Nodup ∧
      ∀ e ∈ cs.foldl (fun m e => Entries.put e.1 (f e.2) m) m, ∀ t ∈ e.2, t.stage = e.1 := by
  induction cs generalizing m with
  | nil => exact ⟨hm, hmt⟩
  | cons e cs ih =>
    refine ih (Entries.nodup_put hm _ _) (fun e' he' => hcs e' (List.mem_cons_of_mem _ he')) ?_
    intro e' he' t ht
    rcases (Entries.mem_put hm).1 he' with rfl | ⟨he', -⟩
    · exact hcs e (by simp) t ht
    · exact hmt e' he' t ht

/-- The columns that are there before any card is shown: one for each active stage. -/
theorem empty_columns (ks : List Key) :
    (Entries.keys (Entries.ofList (ks.map fun k => (k, ([] : List Tile))))).Nodup ∧
      ∀ e ∈ Entries.ofList (ks.map fun k => (k, ([] : List Tile))), e.2 = [] := by
  refine ⟨Entries.nodup_ofList _, ?_⟩
  have hgen (ks : List Key) (m : Entries Key (List Tile)) (hm : (Entries.keys m).Nodup)
      (he : ∀ e ∈ m, e.2 = []) :
      ∀ e ∈ (ks.map fun k => (k, ([] : List Tile))).foldl (fun m p => Entries.put p.1 p.2 m) m,
        e.2 = [] := by
    induction ks generalizing m with
    | nil => exact he
    | cons k ks ih =>
      refine ih _ (Entries.nodup_put hm _ _) fun e hmem => ?_
      rcases (Entries.mem_put hm).1 hmem with rfl | ⟨hmem, -⟩
      · rfl
      · exact he e hmem
  exact hgen ks [] List.nodup_nil (by simp)

end Projection

end Kanban
