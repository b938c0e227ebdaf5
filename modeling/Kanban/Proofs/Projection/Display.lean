import Kanban.Proofs.Projection.Agreement

/-!
# Kanban.Proofs.Projection.Display — columns from left to right

Which columns a client shows and in which order is told by their keys. Local moves open a column for
a target that has none, and a card that goes back closes it again; apart from that the keys stay.

Columns in order are told by their keys and by the tiles that are shown, unless two tiles of one
column may stand either way.

* `keys_begin`, `keys_place`, `keys_restore` — what moves do to the keys.
* `columns_eq` — two views with the same keys and tiles show the same columns.
-/

namespace Kanban

namespace Projection

variable {p q : Projection}

/-- The keys of the columns from left to right. -/
def keys (p : Projection) : List Key := Entries.keys p.columns

theorem keys_congr (hc : q.columns = p.columns) : q.keys = p.keys := congrArg Entries.keys hc

/-- Whether a key is that of an active stage. -/
def isActive (key : Key) (p : Projection) : Bool := p.activeStages.any fun s => s.key = key

theorem mem_keys_of_locate {card : String} {k : Key} {i : Nat}
    (h : p.locate card = some (k, i)) : k ∈ p.keys := by
  obtain ⟨ts, hmem, -⟩ := locate_mem h
  exact Entries.mem_keys_of_mem hmem

theorem get?_columns {k : Key} (h : k ∈ p.keys) : Entries.get? k p.columns = some (p.column k) := by
  unfold column
  cases hg : Entries.get? k p.columns with
  | none => exact absurd h (Entries.get?_eq_none_iff.1 hg)
  | some ts => rfl

/-! ## Moving cards -/

theorem keys_takeOut {place : Key × Nat} (h : place.1 ∈ p.keys) : (p.takeOut place).keys = p.keys :=
  Entries.keys_put_of_mem h _

theorem keys_resort_setColumn {stage : Key} (h : stage ∈ p.keys) (ts : List Tile) :
    ((p.setColumn stage ts).resort stage).keys = p.keys := by
  rw [keys, columns_resort_setColumn]
  exact Entries.keys_put_of_mem h _

theorem keys_putIn {stage : Key} (h : stage ∈ p.keys) (i : Nat) (t : Tile) :
    (p.putIn stage i t).keys = p.keys := keys_resort_setColumn h _

/-- Placing a card in a column that is there opens no column. -/
theorem keys_place {stage : Key} (h : stage ∈ p.keys) (card : String) (x : Mark) :
    (p.place card stage x).keys = p.keys := by
  unfold place
  cases hl : p.locate card with
  | none => rfl
  | some loc =>
    have hk := mem_keys_of_locate hl
    dsimp only
    cases p.tileAt loc with
    | none => rfl
    | some t =>
      dsimp only
      split
      · exact keys_resort_setColumn h _
      · have hout := keys_takeOut hk
        exact (keys_putIn (hout ▸ h) _ _).trans hout

/-- Moving a card opens a column for the target, unless there is one. -/
theorem keys_begin (h : p.Numeric) {card : String} {k : Key} {i : Nat} {t : Tile}
    (hl : p.locate card = some (k, i)) (ht : p.tileAt (k, i) = some t) {target : Key}
    (hn : target.isName = true) (now : Float) (d : Directive) (a : Allocator) :
    (p.begin now card target d a).2.1.keys =
      if target ∈ p.keys then p.keys else p.keys ++ [target] := by
  obtain ⟨r, j, x, b, hr, -, -, hb⟩ := begin_eq hl ht hn ((h.takeOut _).column _) now d a
  have hout : (p.takeOut (k, i)).keys = p.keys := keys_takeOut (mem_keys_of_locate hl)
  have hrk : r.keys = if target ∈ p.keys then p.keys else p.keys ++ [target] := by
    rw [hr, ← hout]
    exact Entries.keys_ensure target [] _
  have htarget : target ∈ r.keys := by
    rw [hrk]
    split
    · assumption
    · simp
  rw [hb]
  exact (keys_congr (columns_track _ _)).trans ((keys_putIn htarget _ _).trans hrk)

/-! ## Going back -/

/-- A card that goes back from the column of an active stage closes no column. -/
theorem keys_restore (h : p.Tidy) {m : Move} {k : Key} {i : Nat}
    (hl : p.locate m.card = some (k, i)) (hk : p.isActive k = true) (hm : m.fromStage ∈ p.keys) :
    (p.restore m).keys = p.keys := by
  obtain ⟨t, ht, -⟩ := h.tileAt_locate hl
  have hout : (p.takeOut (k, i)).keys = p.keys := keys_takeOut (mem_keys_of_locate hl)
  have hactive : ((p.takeOut (k, i)).activeStages.any fun s => s.key = k) = true := hk
  unfold restore
  simp only [withdraw, hl, ht, hactive, Bool.not_true, Bool.and_false, Bool.false_eq_true, if_false]
  exact (keys_putIn (hout ▸ hm) _ _).trans hout

/-- A card that goes back from a column of its own closes it, unless it is that of an active stage. -/
theorem keys_restore_alone (h : p.Tidy) {m : Move} {k : Key} {i : Nat}
    (hl : p.locate m.card = some (k, i)) (hk : p.isActive k = false)
    (halone : ∀ t ∈ p.tiles, t.stage = k → t.id = m.card) (hm : m.fromStage ∈ p.keys)
    (hne : m.fromStage ≠ k) : (p.restore m).keys = p.keys.filter (· ≠ k) := by
  obtain ⟨t, ht, hid, -⟩ := h.tileAt_locate hl
  have hout : (p.takeOut (k, i)).keys = p.keys := keys_takeOut (mem_keys_of_locate hl)
  have hidle : ((p.takeOut (k, i)).activeStages.any fun s => s.key = k) = false := hk
  -- what was left in the column would be another tile of the card
  have hempty : (p.takeOut (k, i)).column k = [] := by
    have hperm := tiles_takeOut h.toHomed ht
    have hnd := (hperm.map (·.id)).nodup_iff.1 h.ids
    rw [List.map_cons, List.nodup_cons] at hnd
    rw [List.eq_nil_iff_forall_not_mem]
    intro u hu
    have hut := mem_tiles_of_column hu
    have hstage := (h.toHomed.takeOut (k, i)).stage_of_column hu
    have huid := halone u (hperm.mem_iff.2 (List.mem_cons_of_mem _ hut)) hstage
    exact hnd.1 (hid ▸ huid ▸ List.mem_map_of_mem hut)
  have hkeys : Entries.keys (Entries.erase k (p.takeOut (k, i)).columns) =
      p.keys.filter (· ≠ k) := by
    rw [Entries.keys_erase, ← hout]
    rfl
  unfold restore
  simp only [withdraw, hl, ht, hidle, hempty, List.isEmpty_nil, Bool.not_false, Bool.and_self, if_true]
  refine (keys_putIn ?_ _ _).trans hkeys
  change m.fromStage ∈ Entries.keys _
  rw [hkeys]
  simpa [hne] using hm

/-! ## Columns told by keys and tiles -/

/-- A column holds the tiles of its stage. -/
theorem Homed.column_perm (h : p.Homed) (stage : Key) :
    (p.tiles.filter (·.stage = stage)).Perm (p.column stage) := by
  have hin : (p.column stage).filter (·.stage = stage) = p.column stage :=
    List.filter_eq_self.2 fun t ht => by simpa using h.stage_of_column ht
  have hout : (p.others stage).filter (·.stage = stage) = [] :=
    List.filter_eq_nil_iff.2 fun t ht => by simpa using (h.mem_others.1 ht).2
  have hperm := (h.tiles_perm stage).filter (·.stage = stage)
  rwa [List.filter_append, hin, hout, List.append_nil] at hperm

/-- Two views in order with the same keys and tiles show the same columns, unless two tiles of a
column may stand either way. -/
theorem columns_eq (hp : p.Homed) (hq : q.Homed) (hk : q.keys = p.keys)
    (ht : q.tiles.Perm p.tiles) (hpo : p.Ordered) (hqo : q.Ordered)
    (hanti : ∀ t ∈ p.tiles, ∀ u ∈ p.tiles, t.stage = u.stage → Precedes t u → Precedes u t → t = u) :
    q.columns = p.columns := by
  refine Entries.eq_of_keys hp.keys hk fun k hkm => ?_
  rw [get?_columns hkm, get?_columns (hk ▸ hkm)]
  have hperm : (q.column k).Perm (p.column k) :=
    (hq.column_perm k).symm.trans ((ht.filter _).trans (hp.column_perm k))
  refine congrArg some (List.Perm.eq_of_pairwise (fun t u htm hum htu hut => ?_)
    (Each.column hqo hereditary_pairwise k) (Each.column hpo hereditary_pairwise k) hperm)
  have htp := hperm.mem_iff.1 htm
  exact hanti t (mem_tiles_of_column htp) u (mem_tiles_of_column hum)
    ((hp.stage_of_column htp).trans (hp.stage_of_column hum).symm) htu hut

end Projection

end Kanban
