import Kanban.Proofs.Projection.Display
import Kanban.Proofs.Projection.Provisional
import Kanban.Proofs.Projection.Shape

/-!
# Kanban.Proofs.Projection.Awaited — moves one after the other

A client that waits for the outcome of each move before it starts the next has at most one move under
way. Between moves it is ready: it shows the columns of the active stages, in order. A move that fails
leaves it as it was; a move that succeeds at a stage with a column has moved one card there. Neither
opens or closes a column for good.

* `Ready` — a view between moves.
* `begin_awaits` — a move of a card that is shown is under way.
* `Awaits.rollback`, `Awaits.confirm` — how it ends.
-/

namespace Kanban

namespace Projection

variable {p q r : Projection}

/-! ## The board and its stages -/

/-- The board that is shown and its stages have not changed. -/
structure SameBoard (p q : Projection) : Prop where
  board : q.board = p.board
  stages : q.stages = p.stages

theorem SameBoard.refl (p : Projection) : SameBoard p p := ⟨rfl, rfl⟩

theorem SameBoard.trans (h : SameBoard p q) (h' : SameBoard q r) : SameBoard p r :=
  ⟨h'.board.trans h.board, h'.stages.trans h.stages⟩

theorem SameBoard.isActive (h : SameBoard p q) (key : Key) : q.isActive key = p.isActive key := by
  rw [Projection.isActive, activeStages, h.stages]
  rfl

theorem same_updateMove (n : Nat) (f : Move → Move) (p : Projection) :
    SameBoard p (p.updateMove n f) := by
  unfold updateMove
  split <;> exact ⟨rfl, rfl⟩

theorem same_supersede (test : Move → Bool) (p : Projection) : SameBoard p (p.supersede test) := by
  unfold supersede
  induction Entries.values p.pending generalizing p with
  | nil => exact .refl p
  | cons n ns ih => exact (same_updateMove n _ p).trans (ih _)

theorem same_clearPending (m : Move) (p : Projection) : SameBoard p (p.clearPending m) := by
  unfold clearPending
  split <;> exact ⟨rfl, rfl⟩

theorem same_place (card : String) (stage : Key) (x : Mark) (p : Projection) :
    SameBoard p (p.place card stage x) := by
  unfold place
  split
  · exact .refl _
  · split
    · exact .refl _
    · split <;> exact ⟨rfl, rfl⟩

theorem same_withdraw (place : Key × Nat) (p : Projection) : SameBoard p (p.withdraw place) := by
  dsimp only [withdraw]
  split <;> exact ⟨rfl, rfl⟩

theorem same_restore (m : Move) (p : Projection) : SameBoard p (p.restore m) := by
  unfold restore
  split
  · exact .refl _
  · split
    · exact .refl _
    · exact ⟨(same_withdraw _ p).board, (same_withdraw _ p).stages⟩

theorem same_banish (m : Move) (p : Projection) : SameBoard p (p.banish m) := by
  unfold banish
  split
  · exact .refl _
  · exact ⟨(same_withdraw _ p).board, (same_withdraw _ p).stages⟩

theorem same_rebase (m : Move) (stage : Key) (x : Mark) (p : Projection) :
    SameBoard p (p.rebase m stage x) := by
  unfold rebase
  dsimp only
  split
  · exact .refl _
  · exact same_updateMove _ _ _

theorem same_track (m : Move) (p : Projection) : SameBoard p (p.track m) := by
  unfold track
  split
  · exact ⟨rfl, rfl⟩
  · rename_i previous _
    have h := same_updateMove previous.id ({ · with replacedBy := some m.id }) p
    split <;> exact ⟨h.board, h.stages⟩

theorem same_begin (now : Float) (card : String) (target : Key) (d : Directive) (a : Allocator)
    (p : Projection) : SameBoard p (p.begin now card target d a).2.1 := by
  unfold begin
  split
  · exact .refl _
  · split
    · exact .refl _
    · dsimp only
      split
      · exact ⟨rfl, rfl⟩
      · split
        · exact ⟨rfl, rfl⟩
        · split
          · exact ⟨rfl, rfl⟩
          · exact ⟨(same_track _ _).board, (same_track _ _).stages⟩

theorem same_confirm (n : Nat) (stage : Option Key) (x : Mark) (p : Projection) :
    SameBoard p (p.confirm n stage (some x)) := by
  unfold confirm
  split
  · exact .refl _
  · rename_i m _
    split
    · exact .refl _
    · dsimp only
      have h := (same_updateMove n (fun m => { m with
        state := .confirmed, committed := ((some x).map Mark.toValue).getD .null }) p).trans
          (same_clearPending m _)
      split
      · exact h.trans (same_rebase _ _ _ _)
      · split
        · exact h
        · exact h.trans (same_place _ _ _ _)

theorem same_giveUp (n : Nat) (error : Option Failure) (p : Projection) :
    SameBoard p (p.giveUp n error) := by
  unfold giveUp
  split
  · exact .refl _
  · split
    · exact .refl _
    · exact (same_updateMove _ _ _).trans (same_clearPending _ _)

theorem same_rollback (n : Nat) (error : Option Reason) (p : Projection) :
    SameBoard p (p.rollback n error) := by
  unfold rollback
  split
  · exact .refl _
  · split
    · exact .refl _
    · have h := same_giveUp n (error.map (·.failure)) p
      dsimp only
      split
      · exact ⟨h.board, h.stages⟩
      · split
        · exact ⟨(same_banish _ _).board.trans h.board, (same_banish _ _).stages.trans h.stages⟩
        · exact ⟨(same_restore _ _).board.trans h.board, (same_restore _ _).stages.trans h.stages⟩

/-! ## A view between moves -/

/-- A view between moves: nothing is under way, and the columns of the active stages are shown, in
order. -/
structure Ready (p : Projection) : Prop where
  sound : p.Sound
  settled : ∀ card, p.live? card = none
  ordered : p.Ordered
  keyed : ∀ k, k ∈ p.keys ↔ p.isActive k = true

theorem Homed.stage_mem_keys (h : p.Homed) {t : Tile} (ht : t ∈ p.tiles) : t.stage ∈ p.keys := by
  obtain ⟨e, he, hte⟩ := mem_tiles.1 ht
  rw [h.home e he t hte]
  exact Entries.mem_keys_of_mem he

theorem each_iff {P : Tile → Prop} :
    (p.Each fun ts => ∀ t ∈ ts, P t) ↔ ∀ t ∈ p.tiles, P t := by
  constructor
  · intro h t ht
    obtain ⟨e, he, hte⟩ := mem_tiles.1 ht
    exact h e he t hte
  · exact fun h e he t ht => h t (mem_tiles.2 ⟨e, he, ht⟩)

theorem Tidy.spot?_of_mem (h : p.Tidy) {t : Tile} (ht : t ∈ p.tiles) :
    p.spot? t.id = some (t.stage, t.position) := by
  rw [spot?, h.tile?_eq_some_iff.2 ⟨ht, rfl⟩]
  rfl

theorem Tidy.exists_of_spot? (h : p.Tidy) {card : String} {z : Spot} (hz : p.spot? card = some z) :
    ∃ t ∈ p.tiles, t.id = card ∧ (t.stage, t.position) = z := by
  obtain ⟨t, ht, rfl⟩ := Option.map_eq_some_iff.1 hz
  obtain ⟨hm, hid⟩ := h.tile?_eq_some_iff.1 ht
  exact ⟨t, hm, hid, rfl⟩

/-- Of two moves of a card the later one counts. -/
theorem relocate_relocate (card : String) (stage stage' : Key) (x y : Mark) (t : Tile) :
    relocate card stage y (relocate card stage' x t) = relocate card stage y t := by
  by_cases h : t.id = card <;> simp [relocate, h]

/-- A card that is moved to where it is does not move. -/
theorem Tidy.map_relocate_spot (h : p.Tidy) {card : String} {z : Spot}
    (hz : p.spot? card = some z) : p.tiles.map (relocate card z.1 z.2) = p.tiles := by
  refine (List.map_congr_left fun t ht => ?_).trans (List.map_id _)
  unfold relocate
  split
  · rename_i hid
    subst hid
    obtain rfl := Option.some.inj ((h.spot?_of_mem ht).symm.trans hz)
    rfl
  · rfl

/-! ## A move under way -/

/-- A move of a view is under way, and no other. -/
structure Awaits (m : Move) (p q : Projection) : Prop where
  sound : q.Sound
  ordered : q.Ordered
  same : SameBoard p q
  live : ∀ c, q.live? c = if c = m.card then some m else none
  origin : p.spot? m.card = some m.origin
  tiles : ∃ x, q.tiles.Perm (p.tiles.map (relocate m.card m.toStage x))
  keys : q.keys = if m.toStage ∈ p.keys then p.keys else p.keys ++ [m.toStage]

/-- A move of a card that is shown is under way. -/
theorem begin_awaits (h : p.Ready) (hf : p.Finite) {a : Allocator} (ha : a.Defined) {now : Float}
    (hnow : now.isNaN = false) {d : Directive} (hd : Definable d) {card : String} {target : Key}
    (ht : target.isName = true) (hc : (p.spot? card).isSome) :
    ∃ m, (p.begin now card target d a).1 = .ok m.id ∧ m.card = card ∧ m.toStage = target ∧
      Awaits m p (p.begin now card target d a).2.1 := by
  have hordered := (kept_begin h.sound now card ht d a).ordered h.ordered
    (definite_begin h.sound.tidy.numeric hf ha hnow hd card ht).1
  have hsame := same_begin now card target d a p
  have hsound := sound_begin h.sound now card ht d a
  have hkeys : (p.begin now card target d a).2.1.keys =
      if target ∈ p.keys then p.keys else p.keys ++ [target] := by
    cases hl : p.locate card with
    | none => simp [spot?, tile?, hl] at hc
    | some loc =>
      obtain ⟨t, htile, -⟩ := h.sound.tidy.tileAt_locate (k := loc.1) (i := loc.2) hl
      exact keys_begin h.sound.tidy.numeric hl htile ht now d a
  obtain ⟨m, x, b, q, hb, hm, rfl, rfl, horigin, hland, hmoves, hpend, -⟩ :=
    begin_shown h.sound.tidy ht hc now d a
  rw [hb] at hordered hsame hsound hkeys ⊢
  -- nothing was under way, so the move goes back to where the card was
  have hinherit : p.inherit m = m := by rw [inherit, h.settled]
  refine ⟨m, rfl, rfl, rfl, hsound, hordered, hsame, fun c => ?_, horigin, ⟨.real x, ?_⟩, hkeys⟩
  · rw [live?_track h.sound.ledger hm hmoves hpend, hinherit, h.settled]
  · rw [tiles_congr (columns_track m q)]
    exact hland.tiles

/-- How a move ends: as a map on tiles, with all columns in their places. -/
structure Ends (f : Tile → Tile) (p q : Projection) : Prop where
  ready : q.Ready
  same : SameBoard p q
  keys : q.keys = p.keys
  tiles : q.tiles.Perm (p.tiles.map f)

namespace Awaits

variable {m : Move}

/-- The record of the move under way. -/
theorem recorded (h : Awaits m p q) : Entries.get? m.id q.moves = some m ∧ m.state = .optimistic ∧
    m.replacedBy = none ∧ m.superseded = false := by
  have hl := live?_eq_some_iff.1 ((h.live m.card).trans (if_pos rfl))
  obtain ⟨hm, -, ho, hr⟩ := h.sound.ledger.of_pendingMove hl.1
  exact ⟨hm, ho, hr, hl.2⟩

/-- Other cards are where they were. -/
theorem mem_of_ne (h : Awaits m p q) {t : Tile} (ht : t ∈ q.tiles) (hne : t.id ≠ m.card) :
    t ∈ p.tiles := by
  obtain ⟨x, hx⟩ := h.tiles
  obtain ⟨u, hu, rfl⟩ := List.mem_map.1 (hx.mem_iff.1 ht)
  rw [id_relocate] at hne
  rwa [relocate, if_neg hne]

/-- The card is in the column it moves to. -/
theorem stage_of_id (h : Awaits m p q) {t : Tile} (ht : t ∈ q.tiles) (hid : t.id = m.card) :
    t.stage = m.toStage := by
  obtain ⟨x, hx⟩ := h.tiles
  obtain ⟨u, -, rfl⟩ := List.mem_map.1 (hx.mem_iff.1 ht)
  rw [id_relocate] at hid
  rw [relocate, if_pos hid]

theorem locate (h : Awaits m p q) (hp : p.Tidy) : ∃ i, q.locate m.card = some (m.toStage, i) := by
  obtain ⟨t, ht, hid, -⟩ := hp.exists_of_spot? h.origin
  obtain ⟨x, hx⟩ := h.tiles
  have hmem : relocate m.card m.toStage x t ∈ q.tiles := hx.mem_iff.2 (List.mem_map_of_mem ht)
  cases hl : q.locate m.card with
  | none => exact absurd ((id_relocate _ _ _ _).trans hid) (locate_eq_none_iff.1 hl _ hmem)
  | some loc =>
    obtain ⟨u, hu, huid, hus⟩ := h.sound.tidy.tileAt_locate (k := loc.1) (i := loc.2) hl
    refine ⟨loc.2, congrArg some (Prod.ext ?_ rfl)⟩
    rw [← hus]
    exact h.stage_of_id (mem_tiles_of_tileAt hu) huid

/-- The column that the card came from. -/
theorem fromStage_mem (h : Awaits m p q) (hp : p.Tidy) : m.fromStage ∈ p.keys := by
  obtain ⟨t, ht, -, hz⟩ := hp.exists_of_spot? h.origin
  have hstage : t.stage = m.fromStage := congrArg Prod.fst hz
  exact hstage ▸ hp.stage_mem_keys ht

/-- Going back to where the card came from: its column is still there, and a column that was opened for
it goes. -/
theorem keys_restore (h : Awaits m p q) (hp : p.Ready) (hr : r.Tidy) (hc : r.columns = q.columns)
    (hs : SameBoard p r) : (r.restore m).keys = p.keys := by
  have hfrom := h.fromStage_mem hp.sound.tidy
  have hrk : r.keys = if m.toStage ∈ p.keys then p.keys else p.keys ++ [m.toStage] :=
    (keys_congr hc).trans h.keys
  obtain ⟨i, hl⟩ := h.locate hp.sound.tidy
  have hl' : r.locate m.card = some (m.toStage, i) := by rw [Projection.locate, hc]; exact hl
  have hactive : r.isActive m.toStage = true ↔ m.toStage ∈ p.keys := by
    rw [hs.isActive, hp.keyed]
  by_cases hk : m.toStage ∈ p.keys
  · rw [if_pos hk] at hrk
    exact (Projection.keys_restore hr hl' (hactive.2 hk) (hrk ▸ hfrom)).trans hrk
  · rw [if_neg hk] at hrk
    have hne : m.fromStage ≠ m.toStage := fun heq => hk (heq ▸ hfrom)
    refine (keys_restore_alone hr hl' (Bool.eq_false_iff.2 (hactive.not.2 hk)) ?_ ?_ hne).trans ?_
    · -- the column was opened for this card
      intro t ht hts
      by_contra hid
      rw [tiles_congr hc] at ht
      exact hk (hts ▸ hp.sound.tidy.stage_mem_keys (h.mem_of_ne ht hid))
    · rw [hrk]
      exact List.mem_append_left _ hfrom
    · have hall : p.keys.filter (· ≠ m.toStage) = p.keys :=
        List.filter_eq_self.2 fun k hkm => by
          simp only [ne_eq, decide_not, Bool.not_eq_true', decide_eq_false_iff_not]
          exact fun heq => hk (heq ▸ hkm)
      rw [hrk, List.filter_append, hall]
      simp

/-- A move that fails leaves the view as it was. -/
theorem rollback (h : Awaits m p q) (hp : p.Ready) (hd : p.Definite) (error : Option Reason) :
    Ends id p (q.rollback m.id error) := by
  obtain ⟨hm, ho, hr, hsup⟩ := h.recorded
  obtain ⟨x, hx⟩ := h.tiles
  have hsound := sound_rollback h.sound m.id error
  have hsame := h.same.trans (same_rollback m.id error q)
  have hkept := kept_rollback h.sound m.id error
  obtain ⟨u, hu, hcol, hj, hq⟩ := rollback_eq h.sound.ledger hm ho error
  have hback : q.rollback m.id error = u.restore m := by rw [hq, hsup, hr]; rfl
  rw [hback] at hsound hsame hkept ⊢
  have hut : u.Tidy := h.sound.tidy.congr hcol hj
  have hus : SameBoard p u :=
    ⟨(same_restore m u).board.symm.trans hsame.board, (same_restore m u).stages.symm.trans hsame.stages⟩
  have hkeys := h.keys_restore hp hut hcol hus
  -- there and back again
  have htiles : (u.restore m).tiles.Perm p.tiles := by
    refine (landed_restore hut (h.sound.ledger.ranked hm)).tiles.trans ?_
    rw [tiles_congr hcol]
    refine (hx.map _).trans ?_
    rw [List.map_map]
    refine (List.Perm.of_eq (List.map_congr_left fun t _ => ?_)).trans
      (.of_eq (hp.sound.tidy.map_relocate_spot h.origin))
    exact relocate_relocate _ _ _ _ _ t
  refine ⟨⟨hsound, fun c => ?_, hkept.ordered h.ordered ?_, fun k => ?_⟩, hsame, hkeys, ?_⟩
  · have hl := (h.live m.card).trans (if_pos rfl)
    rw [(unrecorded_restore m u).live? c, hu.live? c, live?_settle_live h.sound.ledger hl, h.live]
    split <;> rfl
  · exact each_iff.2 fun t ht => each_iff.1 hd t (htiles.mem_iff.1 ht)
  · rw [hkeys, hsame.isActive, hp.keyed]
  · rwa [List.map_id]

/-- A move that succeeds where it was to go moves its card there. -/
theorem confirm (h : Awaits m p q) (hp : p.Ready) (hd : p.Definite) (hk : m.toStage ∈ p.keys)
    {y : Float} (hy : y.isNaN = false) :
    Ends (relocate m.card m.toStage (.real y)) p
      (q.confirm m.id (some m.toStage) (some (.real y))) := by
  obtain ⟨hm, ho, hr, hsup⟩ := h.recorded
  obtain ⟨x, hx⟩ := h.tiles
  have hsound := sound_confirm h.sound m.id (some m.toStage) (x := .real y) rfl
  have hsame := h.same.trans (same_confirm m.id (some m.toStage) (.real y) q)
  have hkept := kept_confirm h.sound m.id (some m.toStage) (x := .real y) rfl
  obtain ⟨u, hu, hq⟩ := confirm_eq h.sound.ledger hm ho (some m.toStage) (.real y)
  -- The move is live, so its landing is placed rather than left to a later move.
  have hplace : q.confirm m.id (some m.toStage) (some (.real y)) =
      u.place m.card m.toStage (.real y) := by
    rw [hq, hsup, hr]
    rfl
  rw [hplace] at hsound hsame hkept ⊢
  have hcol : u.columns = q.columns := by rw [hu]; simp
  have hut : u.Tidy := h.sound.tidy.congr hcol (by rw [hu]; simp)
  have hqk : u.keys = p.keys := (keys_congr hcol).trans (h.keys.trans (if_pos hk))
  have hkeys := (keys_place (hqk ▸ hk) m.card (.real y)).trans hqk
  have htiles : (u.place m.card m.toStage (.real y)).tiles.Perm
      (p.tiles.map (relocate m.card m.toStage (.real y))) := by
    refine (landed_place hut m.card m.toStage (x := .real y) rfl).tiles.trans ?_
    rw [tiles_congr hcol]
    refine (hx.map _).trans ?_
    rw [List.map_map]
    -- The landing overrides the place that the move was shown at.
    exact .of_eq (List.map_congr_left fun t _ => relocate_relocate _ _ _ _ _ t)
  refine ⟨⟨hsound, fun c => ?_, hkept.ordered h.ordered ?_, fun k => ?_⟩, hsame, hkeys, htiles⟩
  · have hl := (h.live m.card).trans (if_pos rfl)
    rw [(unrecorded_place m.card m.toStage (.real y) u).live? c, hu,
      live?_settle_live h.sound.ledger hl, h.live]
    split <;> rfl
  · refine each_iff.2 fun t ht => ?_
    obtain ⟨v, hv, rfl⟩ := List.mem_map.1 (htiles.mem_iff.1 ht)
    unfold relocate
    split
    · exact ⟨y, rfl, hy⟩
    · exact each_iff.1 hd v hv
  · rw [hkeys, hsame.isActive, hp.keyed]

end Awaits

end Projection

end Kanban
