import Kanban.Proofs.Projection.Display
import Kanban.Proofs.Projection.Hearing

/-!
# Kanban.Proofs.Projection.Spots — the places at which one card is shown

A board as it is read may list a card under a stage that the card does not name, or list other cards
twice. What happens to a card that is shown once can still be told: `spots` are the places at which it
is shown, by the columns it is in, and every operation carries one tile of one card or leaves the
places of the card alone.

While a move of the card is live, the place that the client has agreed on with the server is where
that move goes back to.

* `Carried` — one tile of one card is carried to a place.
* `carried_place`, `carried_restore`, `carried_begin` — what moves a card.
* `Pledged` — a card is shown once, and where it is agreed to be.
* `rollback_cases`, `confirm_cases` — what outcomes come to.
* `pledged_begin`, `pledged_rollback`, `pledged_confirm` — moves and their outcomes.
-/

namespace Kanban

namespace Projection

variable {p q r : Projection} {c card : String}

/-- The positions of the tiles of a card in a column. -/
def marks (card : String) (ts : List Tile) : List Mark :=
  (ts.filter (·.id = card)).map (·.position)

/-- The places at which a card is shown. -/
def spots (card : String) (p : Projection) : List Spot :=
  p.columns.flatMap fun e => (marks card e.2).map fun x => (e.1, x)

/-- The places at which a card is shown in all columns but one. -/
def spotsBeside (stage : Key) (card : String) (p : Projection) : List Spot :=
  (Entries.erase stage p.columns).flatMap fun e => (marks card e.2).map fun x => (e.1, x)

theorem perm_marks {ts us : List Tile} (h : ts.Perm us) (card : String) :
    (marks card ts).Perm (marks card us) := (h.filter _).map _

theorem marks_cons (card : String) (t : Tile) (ts : List Tile) :
    marks card (t :: ts) = (if t.id = card then [t.position] else []) ++ marks card ts := by
  unfold marks
  by_cases h : t.id = card <;> simp [h]

theorem marks_eq_nil_iff {ts : List Tile} : marks card ts = [] ↔ ∀ t ∈ ts, t.id ≠ card := by
  simp [marks]

theorem marks_tiles (card : String) (p : Projection) :
    (p.spots card).map (·.2) = marks card p.tiles := by
  simp only [spots, tiles, marks, List.map_flatMap, List.filter_flatMap, List.map_map,
    Function.comp_def]

/-- A card that is listed once is shown in at most one place. -/
theorem spots_le_one (h : (p.tiles.map (·.id)).Nodup) (card : String) :
    (p.spots card).length ≤ 1 := by
  have hcount := List.nodup_iff_count_le_one.1 h card
  rw [List.count, List.countP_map, List.countP_eq_length_filter] at hcount
  have hlen := congrArg List.length (marks_tiles card p)
  rw [List.length_map, marks, List.length_map] at hlen
  rw [hlen]
  simpa [Function.comp_def, beq_eq_decide] using hcount

theorem spots_congr (h : q.columns = p.columns) (card : String) : q.spots card = p.spots card := by
  rw [spots, h, spots]

/-- A card is located unless it is shown nowhere. -/
theorem locate_eq_none_iff_spots : p.locate card = none ↔ p.spots card = [] := by
  rw [locate_eq_none_iff, spots, List.flatMap_eq_nil_iff]
  simp only [List.map_eq_nil_iff, marks_eq_nil_iff, mem_tiles]
  constructor
  · intro h e he t ht
    exact h t ⟨e, he, ht⟩
  · rintro h t ⟨e, he, ht⟩
    exact h e he t ht

/-! ## Single columns -/

@[simp] theorem column_takeOut (place : Key × Nat) (p : Projection) (k : Key) :
    (p.takeOut place).column k =
      if k = place.1 then (p.column place.1).eraseIdx place.2 else p.column k := by
  unfold takeOut setColumn
  by_cases hk : k = place.1
  · simp [column, hk]
  · simp [column, hk, Entries.get?_put_of_ne hk]

@[simp] theorem column_resort_setColumn (stage : Key) (ts : List Tile) (p : Projection) (k : Key) :
    ((p.setColumn stage ts).resort stage).column k =
      if k = stage then arrange ts else p.column k := by
  rw [column, columns_resort_setColumn]
  by_cases hk : k = stage
  · rw [hk, Entries.get?_put_self, if_pos rfl, Option.getD_some]
  · rw [Entries.get?_put_of_ne hk, if_neg hk, column]

theorem column_putIn (stage : Key) (j : Nat) (t : Tile) (p : Projection) (k : Key) :
    (p.putIn stage j t).column k =
      if k = stage then arrange ((p.column stage).insertIdx j { t with stage }) else p.column k :=
  column_resort_setColumn stage _ p k

theorem column_drop {stage : Key} (h : p.column stage = []) (k : Key) :
    column k { p with columns := Entries.erase stage p.columns } = p.column k := by
  by_cases hk : k = stage
  · rw [hk, h, column, Entries.get?_erase, if_pos rfl, Option.getD_none]
  · rw [column, Entries.get?_erase, if_neg hk, column]

/-! ## One column and the others -/

/-- A card is shown in one column and beside it. -/
theorem spots_perm (h : p.keys.Nodup) (stage : Key) (card : String) :
    (p.spots card).Perm
      ((marks card (p.column stage)).map (stage, ·) ++ p.spotsBeside stage card) := by
  unfold column
  cases hg : Entries.get? stage p.columns with
  | none =>
    rw [spotsBeside, Entries.erase_of_not_mem (Entries.get?_eq_none_iff.1 hg)]
    exact .refl _
  | some ts => exact (Entries.perm_erase h hg).flatMap_right _

/-- Where a card is shown when a column has been set. -/
theorem spots_put (h : p.keys.Nodup) {stage : Key} {ts : List Tile}
    (hq : q.columns = Entries.put stage ts p.columns) (card : String) :
    (q.spots card).Perm ((marks card ts).map (stage, ·) ++ p.spotsBeside stage card) := by
  rw [spots, hq]
  exact (Entries.put_perm h stage ts).flatMap_right _

/-- Taking out a tile takes away its place. -/
theorem spots_takeOut (h : p.keys.Nodup) {k : Key} {i : Nat} {t : Tile}
    (ht : p.tileAt (k, i) = some t) (card : String) :
    (p.spots card).Perm
      ((if t.id = card then [(k, t.position)] else []) ++ (p.takeOut (k, i)).spots card) := by
  obtain ⟨hi, rfl⟩ := List.getElem?_eq_some_iff.1 ht
  have hcol := perm_marks (List.getElem_cons_eraseIdx_perm hi).symm card
  rw [marks_cons] at hcol
  have hout := spots_put h (q := p.takeOut (k, i)) rfl card
  refine (spots_perm h k card).trans (((hcol.map _).append_right _).trans ?_)
  rw [List.map_append, List.append_assoc]
  refine (List.Perm.append_left _ hout.symm).trans ?_
  split <;> exact .refl _

/-- Putting in a tile adds its place. -/
theorem spots_putIn (h : p.keys.Nodup) {stage : Key} {j : Nat}
    (hj : j ≤ (p.column stage).length) (t : Tile) (card : String) :
    ((p.putIn stage j t).spots card).Perm
      ((if t.id = card then [(stage, t.position)] else []) ++ p.spots card) := by
  have hcol := perm_marks ((arrange_perm _).trans (List.perm_insertIdx { t with stage } _ hj)) card
  rw [marks_cons] at hcol
  refine (spots_put h (columns_resort_setColumn stage _ p) card).trans ?_
  refine ((hcol.map _).append_right _).trans ?_
  rw [List.map_append, List.append_assoc]
  refine (List.Perm.append_left _ (spots_perm h stage card).symm).trans ?_
  dsimp only
  split <;> exact .refl _

/-- Opening a column shows nothing. -/
theorem spots_open (stage : Key) (card : String) (p : Projection) :
    spots card { p with columns := Entries.ensure stage [] p.columns } = p.spots card := by
  simp only [spots, Entries.ensure]
  split
  · rfl
  · rename_i hn
    rw [Entries.put_of_not_mem (by simpa using hn)]
    simp [marks]

/-- Dropping a column in which the card is not shown. -/
theorem spots_drop (h : p.keys.Nodup) {stage : Key} (hm : marks card (p.column stage) = []) :
    (spots card { p with columns := Entries.erase stage p.columns }).Perm (p.spots card) := by
  have hperm := spots_perm h stage card
  rw [hm] at hperm
  exact hperm.symm

theorem nodup_keys_takeOut (h : p.keys.Nodup) (place : Key × Nat) : (p.takeOut place).keys.Nodup :=
  Entries.nodup_put h _ _

theorem nodup_keys_putIn (h : p.keys.Nodup) (stage : Key) (j : Nat) (t : Tile) :
    (p.putIn stage j t).keys.Nodup := by
  have hput := Entries.nodup_put h stage (arrange ((p.column stage).insertIdx j { t with stage }))
  rwa [← columns_resort_setColumn] at hput

/-! ## Carrying a card -/

/-- One tile of a card is carried to a place, if the card is shown at all, and no other card is. -/
structure Carried (card : String) (z : Spot) (p q : Projection) : Prop where
  keys : q.keys.Nodup
  others : ∀ c, c ≠ card → (q.spots c).Perm (p.spots c)
  own : (p.spots card = [] ∧ q.spots card = []) ∨
    ∃ y rest, (p.spots card).Perm (y :: rest) ∧ (q.spots card).Perm (z :: rest)

theorem carried_refl (h : p.keys.Nodup) (hc : p.locate card = none) (z : Spot) :
    Carried card z p p where
  keys := h
  others := fun _ _ => .refl _
  own := .inl ⟨locate_eq_none_iff_spots.1 hc, locate_eq_none_iff_spots.1 hc⟩

/-- A card that is shown once is shown where it is carried to. -/
theorem Carried.alone {z y : Spot} (h : Carried card z p q) (hp : p.spots card = [y]) :
    q.spots card = [z] := by
  rcases h.own with ⟨hnone, -⟩ | ⟨y', rest, hy, hz⟩
  · simp [hp] at hnone
  · rw [hp] at hy
    have hlen := hy.length_eq
    obtain rfl : rest = [] := by simpa using hlen
    exact List.perm_singleton.1 hz

theorem Carried.length {z : Spot} (h : Carried card z p q) (c : String) :
    (q.spots c).length = (p.spots c).length := by
  by_cases hc : c = card
  · subst hc
    rcases h.own with ⟨hp, hq⟩ | ⟨y, rest, hp, hq⟩
    · rw [hp, hq]
    · rw [hp.length_eq, hq.length_eq]
      rfl
  · exact (h.others c hc).length_eq

/-- What happens to the columns before, without moving a card. -/
theorem Carried.after {z : Spot} (h : Carried card z q r) (hq : q.columns = p.columns) :
    Carried card z p r where
  keys := h.keys
  others := fun c hc => spots_congr hq c ▸ h.others c hc
  own := spots_congr hq card ▸ h.own

/-- What happens afterwards, without touching a column. -/
theorem Carried.before {z : Spot} (h : Carried card z p q) (hr : r.columns = q.columns) :
    Carried card z p r where
  keys := keys_congr hr ▸ h.keys
  others := fun c hc => spots_congr hr c ▸ h.others c hc
  own := spots_congr hr card ▸ h.own

/-- A tile is taken out of its column and put into another; between the two, columns may be opened or
dropped as long as no tile is lost. -/
theorem carried_putIn (h : p.keys.Nodup) {k : Key} {i : Nat} {t : Tile}
    (ht : p.tileAt (k, i) = some t) (hq : q.keys.Nodup)
    (hqs : ∀ c, (q.spots c).Perm ((p.takeOut (k, i)).spots c)) {stage : Key} {j : Nat}
    (hj : j ≤ (q.column stage).length) (x : Mark) :
    Carried t.id (stage, x) p (q.putIn stage j { t with position := x }) where
  keys := nodup_keys_putIn hq stage j _
  others := by
    intro c hc
    have hin := spots_putIn hq hj { t with position := x } c
    have hout := spots_takeOut h ht c
    rw [if_neg hc.symm, List.nil_append] at hin hout
    exact hin.trans ((hqs c).trans hout.symm)
  own := by
    have hin := spots_putIn hq hj { t with position := x } t.id
    have hout := spots_takeOut h ht t.id
    rw [if_pos rfl] at hin hout
    exact .inr ⟨_, _, hout, hin.trans ((hqs t.id).append_left _)⟩

/-- A tile gets another position within its column. -/
theorem carried_set (h : p.keys.Nodup) {k : Key} {i : Nat} {t : Tile}
    (ht : p.tileAt (k, i) = some t) (x : Mark) :
    Carried t.id (k, x) p
      ((p.setColumn k ((p.column k).set i { t with position := x })).resort k) := by
  obtain ⟨hi, hti⟩ := List.getElem?_eq_some_iff.1 ht
  have hcolumns := columns_resort_setColumn k ((p.column k).set i { t with position := x }) p
  -- the column holds the tile at its new position and the rest
  have hset : (arrange ((p.column k).set i { t with position := x })).Perm
      ({ t with position := x } :: (p.column k).eraseIdx i) := by
    have hi' : i < ((p.column k).set i { t with position := x }).length := by simpa using hi
    have hperm := (List.getElem_cons_eraseIdx_perm hi').symm
    rw [List.getElem_set_self, List.eraseIdx_set_eq] at hperm
    exact (arrange_perm _).trans hperm
  have hspots (c : String) :
      (((p.setColumn k ((p.column k).set i { t with position := x })).resort k).spots c).Perm
        ((if t.id = c then [(k, x)] else []) ++ (p.takeOut (k, i)).spots c) := by
    have hm := perm_marks hset c
    rw [marks_cons] at hm
    refine (spots_put h hcolumns c).trans (((hm.map _).append_right _).trans ?_)
    rw [List.map_append, List.append_assoc]
    refine (List.Perm.append_left _ (spots_put h (q := p.takeOut (k, i)) rfl c).symm).trans ?_
    dsimp only
    split <;> exact .refl _
  refine ⟨?_, fun c hc => ?_, .inr ⟨(k, t.position), (p.takeOut (k, i)).spots t.id, ?_, ?_⟩⟩
  · have hput := Entries.nodup_put h k (arrange ((p.column k).set i { t with position := x }))
    rwa [← columns_resort_setColumn] at hput
  · have hout := spots_takeOut h ht c
    have hin := hspots c
    rw [if_neg hc.symm, List.nil_append] at hin hout
    exact hin.trans hout.symm
  · have hout := spots_takeOut h ht t.id
    rwa [if_pos rfl] at hout
  · have hin := hspots t.id
    rwa [if_pos rfl] at hin

theorem carried_place (h : p.keys.Nodup) (card : String) (stage : Key) (x : Mark) :
    Carried card (stage, x) p (p.place card stage x) := by
  unfold place
  cases hl : p.locate card with
  | none => exact carried_refl h hl _
  | some loc =>
    obtain ⟨k, i⟩ := loc
    obtain ⟨t, ht, rfl⟩ := tileAt_locate h hl
    simp only [ht]
    by_cases hk : k = stage
    · subst hk
      simp only [if_true]
      exact carried_set h ht x
    · simp only [hk, if_false]
      exact carried_putIn h ht (nodup_keys_takeOut h _) (fun _ => .refl _) (Nat.le_refl _) x

theorem carried_restore (h : p.keys.Nodup) (m : Move) :
    Carried m.card m.origin p (p.restore m) := by
  unfold restore
  cases hl : p.locate m.card with
  | none => exact carried_refl h hl _
  | some loc =>
    obtain ⟨k, i⟩ := loc
    obtain ⟨t, ht, hid⟩ := tileAt_locate h hl
    have hout := nodup_keys_takeOut h (k, i)
    simp only [withdraw, ht, ← hid]
    split
    · -- the column that the card leaves is empty now and goes
      rename_i hk
      simp only [Bool.and_eq_true, List.isEmpty_iff] at hk
      refine carried_putIn h ht ?_ (fun c => spots_drop hout ?_) (Nat.min_le_right _ _) _
      · exact Entries.nodup_erase hout k
      · rw [hk.1]
        rfl
    · exact carried_putIn h ht hout (fun _ => .refl _) (Nat.min_le_right _ _) _

/-- A move that is started carries its card to the target. -/
theorem carried_begin (h : p.keys.Nodup) (hn : p.Numeric) (hc : p.spots card ≠ []) {target : Key}
    (ht : target.isName = true) (now : Float) (d : Directive) (a : Allocator) :
    ∃ m x b q, p.begin now card target d a = (.ok p.nextMove, q.track m, b) ∧ p.Fresh m ∧
      m.card = card ∧ m.toStage = target ∧ m.provisional = x ∧ m.origin ∈ p.spots card ∧
      Carried card (target, .real x) p q ∧
      q.moves = p.moves ∧ q.pending = p.pending ∧ q.nextMove = p.nextMove + 1 := by
  cases hl : p.locate card with
  | none => exact absurd (locate_eq_none_iff_spots.1 hl) hc
  | some loc =>
    obtain ⟨k, i⟩ := loc
    obtain ⟨t, htile, rfl⟩ := tileAt_locate h hl
    obtain ⟨r, j, x, b, hr, hj, -, hb⟩ := begin_eq hl htile ht ((hn.takeOut _).column _) now d a
    have hout := nodup_keys_takeOut h (k, i)
    have hrk : r.keys.Nodup := by
      rw [hr]
      exact Entries.nodup_ensure hout _ _
    have hrs (c : String) : (r.spots c).Perm ((p.takeOut (k, i)).spots c) := by
      rw [hr]
      exact .of_eq (spots_open target c (p.takeOut (k, i)))
    have hmem : (k, t.position) ∈ p.spots t.id := by
      have hperm := spots_takeOut h htile t.id
      rw [if_pos rfl] at hperm
      exact hperm.mem_iff.2 List.mem_cons_self
    refine ⟨{ id := p.nextMove, card := t.id, fromStage := k, fromIndex := i, fromMark := t.position
              toStage := target, directive := d, provisional := x }, x, b, _, hb,
      ⟨rfl, rfl, rfl, rfl, ?_, rfl⟩, rfl, rfl, rfl, hmem, carried_putIn h htile hrk hrs hj (.real x), ?_⟩
    · exact hn.column k t (List.mem_of_getElem? htile)
    · rw [hr]
      exact ⟨rfl, rfl, rfl⟩

/-! ## Outcomes -/

/-- What a failure comes to: a live move takes its card back and is not live any more, and the failure of
any other move concerns no card. -/
theorem rollback_cases (h : p.Ledger) (hk : p.keys.Nodup) (n : Nat) (error : Option Reason) :
    (∃ m, Entries.get? n p.moves = some m ∧ p.live? m.card = some m ∧
      Carried m.card m.origin p (p.rollback n error) ∧
      ∀ c, (p.rollback n error).live? c = if c = m.card then none else p.live? c) ∨
    (∀ m, Entries.get? n p.moves = some m → p.live? m.card ≠ some m) ∧
      (p.rollback n error).columns = p.columns ∧
      ∀ c, (p.rollback n error).live? c = p.live? c := by
  cases hm : Entries.get? n p.moves with
  | none =>
    rw [rollback, hm]
    exact .inr ⟨by simp, rfl, fun _ => rfl⟩
  | some m =>
    by_cases ho : m.state = .optimistic
    · rcases rollback_eq h hm ho error with ⟨q, hu, hcol, -, hq⟩
      rw [hq]
      by_cases hl : p.live? m.card = some m
      · left
        rcases live?_eq_some_iff.1 hl with ⟨hp, hsup⟩
        rw [hsup, (h.of_pendingMove hp).2.2.2]
        simp only [Option.isSome_none, Bool.or_false, Bool.false_eq_true, if_false]
        refine ⟨m, rfl, hl, (carried_restore (keys_congr hcol ▸ hk) m).after hcol, fun c => ?_⟩
        rw [(unrecorded_restore m q).live?, hu.live?, live?_settle_live h hl]
      · -- overridden or replaced, and so the record is all that changes
        right
        have hstale : (m.superseded || m.replacedBy.isSome) = true := by
          by_contra hnot
          simp only [Bool.or_eq_true, not_or, Bool.not_eq_true, Option.isSome_eq_false_iff,
            Option.isNone_iff_eq_none] at hnot
          exact hl (h.live?_of_unsettled hm ho hnot.2 hnot.1)
        rw [if_pos hstale]
        refine ⟨fun m' hm' => Option.some.inj hm' ▸ hl, hcol, fun c => (hu.live? c).trans ?_⟩
        refine live?_settle_of_stale h (h.numbered_id hm) ?_ (failed (error.map (·.failure))) c
        simpa [Option.isSome_iff_ne_none] using hstale
    · rw [rollback_settled hm ho]
      refine .inr ⟨fun m' hm' hl => ho ?_, rfl, fun _ => rfl⟩
      rw [Option.some.inj hm']
      exact (h.of_pendingMove (live?_eq_some_iff.1 hl).1).2.2.1

/-- What the success of an unsettled move comes to: a live move has its card placed and is not live any
more, the success of a move that was replaced by a live one changes where that one goes back to, and
any other success concerns no card. -/
theorem confirm_cases (h : p.Ledger) (hk : p.keys.Nodup) {n : Nat} {m : Move}
    (hm : Entries.get? n p.moves = some m) (ho : m.state = .optimistic) (stage : Option Key)
    (x : Mark) :
    (p.live? m.card = some m ∧
      Carried m.card (stage.getD m.toStage, x) p (p.confirm n stage (some x)) ∧
      ∀ c, (p.confirm n stage (some x)).live? c = if c = m.card then none else p.live? c) ∨
    (p.confirm n stage (some x)).columns = p.columns ∧ p.live? m.card ≠ some m ∧
      (p.heir? m = none ∧ (∀ c, (p.confirm n stage (some x)).live? c = p.live? c) ∨
        ∃ l i, p.heir? m = some l ∧ p.live? m.card = some l ∧
          ∀ c, (p.confirm n stage (some x)).live? c =
            if c = m.card then some (redirected (stage.getD m.toStage) x i l) else p.live? c) := by
  have hid := h.numbered_id hm
  rcases confirm_eq h hm ho stage x with ⟨q, hqe, hq⟩
  have hcol : q.columns = p.columns := by simp [hqe]
  have hstale (hs : m.superseded = true ∨ m.replacedBy ≠ none) (c : String) :
      q.live? c = p.live? c := by
    rw [hqe]
    exact live?_settle_of_stale h hid hs (succeeded x) c
  rw [hq]
  cases hr : m.replacedBy with
  | some k =>
    right
    have hlive := hstale (.inr (by simp [hr]))
    have hnot : p.live? m.card ≠ some m := by
      intro hl
      simp [(h.of_pendingMove (live?_eq_some_iff.1 hl).1).2.2.2] at hr
    have hheir : q.heir? m = p.heir? m := by
      rw [hqe]
      exact heir?_settle h hid (succeeded x)
    rw [Option.isSome_some, if_pos rfl, rebase_eq (by simp [hr]), hheir]
    cases hh : p.heir? m with
    | none => exact ⟨hcol, hnot, .inl ⟨rfl, hlive⟩⟩
    | some l =>
      have hl := (h.heir_spec hid hh).2
      have hset : q.Ledger := hqe ▸ h.settle hid (mild_succeeded x) (by simp [succeeded]) rfl
      refine ⟨(columns_updateMove _ _ _).trans hcol, hnot,
        .inr ⟨l, (q.column (stage.getD m.toStage)).length, rfl, hl, fun c => ?_⟩⟩
      rw [live?_redirected hset ((hlive _).trans hl), hlive]
  | none =>
    have hh : p.heir? m = none := by simp [heir?, hr]
    simp only [Option.isSome_none, Bool.false_eq_true, if_false]
    cases hsup : m.superseded with
    | true =>
      right
      have hnot : p.live? m.card ≠ some m := by
        intro hl
        simp [(live?_eq_some_iff.1 hl).2] at hsup
      exact ⟨hcol, hnot, .inl ⟨hh, hstale (.inl hsup)⟩⟩
    | false =>
      left
      have hl := h.live?_of_unsettled hm ho hr hsup
      refine ⟨hl, (carried_place (keys_congr hcol ▸ hk) m.card _ x).after hcol, fun c => ?_⟩
      simp only [Bool.false_eq_true, if_false]
      rw [(unrecorded_place _ _ _ _).live?, hqe, live?_settle_live h hl]

/-- A failure carries a card or none. -/
theorem carried_rollback (h : p.Ledger) (hk : p.keys.Nodup) (n : Nat) (error : Option Reason) :
    (p.rollback n error).columns = p.columns ∨ ∃ c z, Carried c z p (p.rollback n error) := by
  rcases rollback_cases h hk n error with ⟨m, -, -, hcar, -⟩ | ⟨-, hcol, -⟩
  · exact .inr ⟨m.card, _, hcar⟩
  · exact .inl hcol

/-- A success carries a card or none. -/
theorem carried_confirm (h : p.Ledger) (hk : p.keys.Nodup) (n : Nat) (stage : Option Key)
    (x : Mark) : (p.confirm n stage (some x)).columns = p.columns ∨
      ∃ c z, Carried c z p (p.confirm n stage (some x)) := by
  cases hm : Entries.get? n p.moves with
  | none => exact .inl (by simp [confirm, hm])
  | some m =>
    by_cases ho : m.state = .optimistic
    · rcases confirm_cases h hk hm ho stage x with ⟨-, hcar, -⟩ | ⟨hcol, -⟩
      · exact .inr ⟨m.card, _, hcar⟩
      · exact .inl hcol
    · exact .inl (by rw [confirm_settled hm ho])

/-! ## What does not concern a card -/

/-- A card is shown where it was, and its live move is as it was. -/
structure Aside (card : String) (p q : Projection) : Prop where
  spots : (q.spots card).Perm (p.spots card)
  live : q.live? card = p.live? card

theorem Aside.refl (card : String) (p : Projection) : Aside card p p := ⟨.refl _, rfl⟩

theorem Aside.trans (h : Aside card p q) (h' : Aside card q r) : Aside card p r :=
  ⟨h'.spots.trans h.spots, h'.live.trans h.live⟩

/-- Only the records matter for moves, and only the columns for places. -/
theorem aside_of_columns (hc : q.columns = p.columns) (hl : q.live? card = p.live? card) :
    Aside card p q := ⟨.of_eq (spots_congr hc card), hl⟩

theorem Carried.aside {z : Spot} (h : Carried c z p q) (hc : card ≠ c)
    (hl : q.live? card = p.live? card) : Aside card p q := ⟨h.others card hc, hl⟩

theorem Aside.alone {z : Spot} (h : Aside card p q) (hp : p.spots card = [z]) :
    q.spots card = [z] := List.perm_singleton.1 (hp ▸ h.spots)

/-- Starting a move of another card. -/
theorem aside_begin (h : p.Ledger) (hk : p.keys.Nodup) (hn : p.Numeric) (hc : card ≠ c)
    (now : Float) {target : Key} (ht : target.isName = true) (d : Directive) (a : Allocator) :
    Aside card p (p.begin now c target d a).2.1 := by
  by_cases hs : p.spots c = []
  · rw [begin_absent (locate_eq_none_iff_spots.2 hs)]
    exact .refl card p
  · obtain ⟨m, x, b, q, hb, hm, rfl, -, -, -, hcar, hmoves, hpend, -⟩ :=
      carried_begin hk hn hs ht now d a
    rw [hb]
    refine (hcar.before (columns_track m q)).aside hc ?_
    rw [live?_track h hm hmoves hpend, if_neg hc]

/-- The failure of a move that is not the live move of the card. -/
theorem aside_rollback (h : p.Ledger) (hk : p.keys.Nodup) {n : Nat}
    (hn : ∀ m, Entries.get? n p.moves = some m → p.live? card ≠ some m)
    (error : Option Reason) : Aside card p (p.rollback n error) := by
  rcases rollback_cases h hk n error with ⟨m, hm, hl, hcar, hlive⟩ | ⟨-, hcol, hlive⟩
  · have hne : card ≠ m.card := by
      rintro rfl
      exact hn m hm hl
    exact hcar.aside hne ((hlive card).trans (if_neg hne))
  · exact aside_of_columns hcol (hlive card)

/-- The success of a move of another card. -/
theorem aside_confirm (h : p.Ledger) (hk : p.keys.Nodup) {n : Nat}
    (hn : ∀ m, Entries.get? n p.moves = some m → m.state = .optimistic → m.card ≠ card)
    (stage : Option Key) (x : Mark) : Aside card p (p.confirm n stage (some x)) := by
  cases hm : Entries.get? n p.moves with
  | none =>
    rw [confirm, hm]
    exact .refl card p
  | some m =>
    by_cases ho : m.state = .optimistic
    · have hne : card ≠ m.card := (hn m hm ho).symm
      rcases confirm_cases h hk hm ho stage x with
        ⟨-, hcar, hlive⟩ | ⟨hcol, -, ⟨-, hlive⟩ | ⟨l, i, -, -, hlive⟩⟩
      · exact hcar.aside hne ((hlive card).trans (if_neg hne))
      · exact aside_of_columns hcol (hlive card)
      · exact aside_of_columns hcol ((hlive card).trans (if_neg hne))
    · rw [confirm_settled hm ho]
      exact .refl card p

/-- The end of a move that is not the live move of the card. -/
theorem Closes.aside {n : Nat} (h : Closes n p q) (hp : p.Ledger)
    (hn : ∀ m, Entries.get? n p.moves = some m → p.live? card ≠ some m) : Aside card p q := by
  refine aside_of_columns h.columns ((h.live hp card).trans (if_neg fun hany => ?_))
  rcases (Option.any_eq_true _ _).1 hany with ⟨l, hl, hid⟩
  obtain rfl : l.id = n := by simpa using hid
  exact hn l (hp.of_pendingMove (live?_eq_some_iff.1 hl).1).1 hl

/-! ## Where a card is agreed to be -/

/-- A card is shown once, and the place at which the client takes it to be on the server is the place
shown or, while a move of the card is live, the one that the move goes back to. -/
def Pledged (card : String) (z : Spot) (p : Projection) : Prop :=
  ∃ y, p.spots card = [y] ∧ ((p.live? card).map Move.origin).getD y = z

theorem pledged_of_not_live {z : Spot} (hs : p.spots card = [z]) (hl : p.live? card = none) :
    Pledged card z p := ⟨z, hs, by rw [hl]; rfl⟩

theorem Pledged.of_not_live {z : Spot} (h : Pledged card z p) (hl : p.live? card = none) :
    p.spots card = [z] := by
  obtain ⟨y, hs, hz⟩ := h
  rw [hl] at hz
  exact hz ▸ hs

theorem Pledged.aside {z : Spot} (h : Pledged card z p) (ha : Aside card p q) :
    Pledged card z q := by
  obtain ⟨y, hs, hz⟩ := h
  exact ⟨y, ha.alone hs, by rw [ha.live, hz]⟩

/-- Starting moves of whatever cards leaves the agreed place of a card alone. -/
theorem pledged_begin (h : p.Ledger) (hk : p.keys.Nodup) (hn : p.Numeric) {z : Spot}
    (hz : Pledged card z p) (now : Float) (c : String) {target : Key} (ht : target.isName = true)
    (d : Directive) (a : Allocator) : Pledged card z (p.begin now c target d a).2.1 := by
  by_cases hc : card = c
  · subst hc
    obtain ⟨y, hs, hz⟩ := hz
    have hne : p.spots card ≠ [] := by simp [hs]
    obtain ⟨m, x, b, q, hb, hm, rfl, -, -, horig, hcar, hmoves, hpend, -⟩ :=
      carried_begin hk hn hne ht now d a
    -- the new move goes back to where the card was, or to where a live move would go back to
    rw [hb]
    refine ⟨_, (hcar.before (columns_track m q)).alone hs, ?_⟩
    rw [live?_track h hm hmoves hpend, if_pos rfl, Option.map_some, Option.getD_some,
      origin_inherit, ← hz]
    rw [hs, List.mem_singleton] at horig
    rw [horig]
  · exact hz.aside (aside_begin h hk hn hc now ht d a)

/-- Failures leave the agreed place of a card alone. -/
theorem pledged_rollback (h : p.Ledger) (hk : p.keys.Nodup) {z : Spot} (hz : Pledged card z p)
    (n : Nat) (error : Option Reason) : Pledged card z (p.rollback n error) := by
  rcases rollback_cases h hk n error with ⟨m, hm, hl, hcar, hlive⟩ | ⟨-, hcol, hlive⟩
  · by_cases hc : card = m.card
    · -- the card goes back to where its live move took it from
      subst hc
      rcases hz with ⟨y, hs, hz⟩
      rw [hl] at hz
      obtain rfl : m.origin = z := hz
      exact pledged_of_not_live (hcar.alone hs) ((hlive m.card).trans (if_pos rfl))
    · exact hz.aside (hcar.aside hc ((hlive card).trans (if_neg hc)))
  · exact hz.aside (aside_of_columns hcol (hlive card))

/-- The success of a move of a card sets its agreed place if the move is live or was replaced by one
that is live, and else leaves it alone. -/
theorem pledged_confirm (h : p.Ledger) (hk : p.keys.Nodup) {z : Spot} {n : Nat} {m : Move}
    (hz : Pledged m.card z p) (hm : Entries.get? n p.moves = some m) (ho : m.state = .optimistic)
    (stage : Option Key) (x : Mark) :
    Pledged m.card
      (if p.live? m.card = some m ∨ (p.heir? m).isSome then (stage.getD m.toStage, x) else z)
      (p.confirm n stage (some x)) := by
  rcases confirm_cases h hk hm ho stage x with
    ⟨hl, hcar, hlive⟩ | ⟨hcol, hnot, ⟨hh, hlive⟩ | ⟨l, i, hh, -, hlive⟩⟩
  · rcases hz with ⟨y, hs, -⟩
    rw [if_pos (.inl hl)]
    exact pledged_of_not_live (hcar.alone hs) ((hlive m.card).trans (if_pos rfl))
  · rw [if_neg (by simp [hnot, hh])]
    exact hz.aside (aside_of_columns hcol (hlive m.card))
  · -- the live move goes back to the committed place now
    rcases hz with ⟨y, hs, -⟩
    rw [if_pos (.inr (by simp [hh]))]
    refine ⟨y, (spots_congr hcol _).trans hs, ?_⟩
    rw [hlive, if_pos rfl]
    rfl

end Projection

end Kanban
