import Kanban.Proofs.Projection.Bookkeeping
import Kanban.Proofs.Projection.Spots

/-!
# Kanban.Proofs.Projection.Regular — views with books and columns in order

Whatever is done with a client's view and whatever boards are read, its books are kept and no two
columns have one key, even if cards are listed twice or under a stage that they do not name. On such
a view it can be told of every act which cards it leaves alone.

* `Regular`, `regular_run` — the invariant, and every run.
* `Sent`, `sent_begin` — what a move that is started leaves behind.
* `aside_remoteMove`, `aside_fold` — what events leave alone.
-/

namespace Kanban

namespace Projection

variable {p q : Projection} {c card : String}

/-- The books are kept, and no two columns have one key. -/
structure Regular (p : Projection) : Prop extends Books p where
  keys : p.keys.Nodup

theorem regular_new (board : Key) : Regular { board } := ⟨books_new board, List.nodup_nil⟩

/-! ## Outcomes -/

theorem nodup_keys_rollback (h : p.Ledger) (hk : p.keys.Nodup) (n : Nat)
    (error : Option Reason) : (p.rollback n error).keys.Nodup := by
  rcases carried_rollback h hk n error with hcol | ⟨c, z, hcar⟩
  · exact keys_congr hcol ▸ hk
  · exact hcar.keys

theorem nodup_keys_confirm (h : p.Ledger) (hk : p.keys.Nodup) (n : Nat) (stage : Option Key)
    (x : Mark) : (p.confirm n stage (some x)).keys.Nodup := by
  rcases carried_confirm h hk n stage x with hcol | ⟨c, z, hcar⟩
  · exact keys_congr hcol ▸ hk
  · exact hcar.keys

/-- The failure of an unsettled move changes its record and no other. -/
theorem get?_rollback (h : p.Ledger) {n : Nat} {m : Move} (hm : Entries.get? n p.moves = some m)
    (ho : m.state = .optimistic) (error : Option Reason) (k : Nat) :
    Entries.get? k (p.rollback n error).moves =
      if k = n then some (failed (error.map (·.failure)) m) else Entries.get? k p.moves := by
  obtain ⟨q, hu, -, -, hq⟩ := rollback_eq h hm ho error
  have hmoves : (p.rollback n error).moves = (p.updateMove m.id (failed (error.map (·.failure)))).moves := by
    rw [hq]
    split
    · exact hu.moves.trans (moves_clearPending _ _)
    · exact (unrecorded_restore m q).moves.trans (hu.moves.trans (moves_clearPending _ _))
  obtain ⟨rfl, -⟩ := h.numbered hm
  rw [hmoves, get?_updateMove]
  split
  · rename_i hk
    rw [hk, hm, Option.map_some]
  · rfl

/-- The success of an unsettled move changes its record; the move that replaced it may have another
place to go back to then, and no other record changes. -/
theorem get?_confirm (h : p.Ledger) {n : Nat} {m : Move} (hm : Entries.get? n p.moves = some m)
    (ho : m.state = .optimistic) (stage : Option Key) (x : Mark) :
    Entries.get? n (p.confirm n stage (some x)).moves = some (succeeded x m) ∧
      ∀ k m', k ≠ n → Entries.get? k p.moves = some m' →
        ∃ m'', Entries.get? k (p.confirm n stage (some x)).moves = some m'' ∧
          (m'' = m' ∨ ∃ s y i, m'' = redirected s y i m') := by
  obtain ⟨q, hqe, hq⟩ := confirm_eq h hm ho stage x
  obtain ⟨rfl, -⟩ := h.numbered hm
  have hget (k : Nat) : Entries.get? k q.moves =
      if k = m.id then (Entries.get? k p.moves).map (succeeded x) else Entries.get? k p.moves := by
    rw [hqe, get?_moves_settle]
  have hown : Entries.get? m.id q.moves = some (succeeded x m) := by
    rw [hget, if_pos rfl, hm, Option.map_some]
  have hother (k : Nat) (m' : Move) (hk : k ≠ m.id) (hm' : Entries.get? k p.moves = some m') :
      Entries.get? k q.moves = some m' := by
    rw [hget, if_neg hk, hm']
  rw [hq]
  split
  · rename_i hr
    rw [rebase_eq hr]
    cases hh : q.heir? m with
    | none => exact ⟨hown, fun k m' hk hm' => ⟨m', hother k m' hk hm', .inl rfl⟩⟩
    | some l =>
      rw [hqe, heir?_settle h hm] at hh
      have hl := h.of_pendingMove (live?_eq_some_iff.1 (h.heir_spec hm hh).2).1
      -- the move that is live was not replaced, so it is another one
      have hne : m.id ≠ l.id := by
        intro hid
        rw [← hid, hm] at hl
        obtain rfl := Option.some.inj hl.1
        simp [hl.2.2.2] at hr
      refine ⟨?_, fun k m' hk hm' => ?_⟩
      · rw [get?_updateMove, if_neg hne, hown]
      · rw [get?_updateMove, hother k m' hk hm']
        split
        · exact ⟨_, rfl, .inr ⟨_, _, _, rfl⟩⟩
        · exact ⟨_, rfl, .inl rfl⟩
  · split
    · exact ⟨hown, fun k m' hk hm' => ⟨m', hother k m' hk hm', .inl rfl⟩⟩
    · have hu := unrecorded_place m.card (stage.getD m.toStage) x q
      rw [hu.moves]
      exact ⟨hown, fun k m' hk hm' => ⟨m', hother k m' hk hm', .inl rfl⟩⟩

theorem pending_rebase (m : Move) (stage : Key) (x : Mark) (p : Projection) :
    (p.rebase m stage x).pending = p.pending ∧ (p.rebase m stage x).nextMove = p.nextMove := by
  unfold rebase
  dsimp only
  split
  · exact ⟨rfl, rfl⟩
  · exact ⟨pending_updateMove _ _ _, nextMove_updateMove _ _ _⟩

/-- No card waits for a settled move. -/
theorem Ledger.ne_of_waiting (h : p.Ledger) {n k : Nat} {m : Move}
    (hm : Entries.get? n p.moves = some m) (hs : m.state ≠ .optimistic)
    (hk : Entries.get? c p.pending = some k) : k ≠ n := by
  rintro rfl
  obtain ⟨m', hm', -, ho, -⟩ := h.waiting hk
  obtain rfl := Option.some.inj (hm.symm.trans hm')
  exact hs ho

/-- After a success no card waits for the move, and no card waits for a move that it did not wait for
before. -/
theorem pending_confirm (h : p.Ledger) {n : Nat} {m : Move} (hm : Entries.get? n p.moves = some m)
    (stage : Option Key) (position : Option Mark) {c : String} {k : Nat}
    (hk : Entries.get? c (p.confirm n stage position).pending = some k) :
    Entries.get? c p.pending = some k ∧ k ≠ n := by
  obtain ⟨rfl, -⟩ := h.numbered hm
  by_cases ho : m.state = .optimistic
  · -- Whatever the landing moves, only closing the move touches what is pending.
    have hset : (p.confirm m.id stage position).pending =
        ((p.updateMove m.id fun m =>
          { m with state := .confirmed, committed := (position.map Mark.toValue).getD .null }
            ).clearPending m).pending := by
      simp only [confirm, hm, ho, ne_eq, not_true, if_false]
      cases position with
      | none => rfl
      | some x =>
        dsimp only
        split
        · exact (pending_rebase _ _ _ _).1
        · split
          · rfl
          · exact (unrecorded_place _ _ _ _).pending
    rw [hset, h.get?_settle hm] at hk
    split at hk
    · simp at hk
    · rename_i hne
      refine ⟨hk, ?_⟩
      rintro rfl
      exact hne hk
  · rw [confirm_settled hm ho] at hk
    exact ⟨hk, h.ne_of_waiting hm ho hk⟩

/-- After a failure no card waits for the move, and no card waits for a move that it did not wait for
before. -/
theorem pending_rollback (h : p.Ledger) {n : Nat} {m : Move} (hm : Entries.get? n p.moves = some m)
    (error : Option Reason) {c : String} {k : Nat}
    (hk : Entries.get? c (p.rollback n error).pending = some k) :
    Entries.get? c p.pending = some k ∧ k ≠ n := by
  obtain ⟨rfl, -⟩ := h.numbered hm
  by_cases ho : m.state = .optimistic
  · obtain ⟨q, hu, -, -, hq⟩ := rollback_eq h hm ho error
    have hset : (p.rollback m.id error).pending =
        ((p.updateMove m.id (failed (error.map (·.failure)))).clearPending m).pending := by
      rw [hq]
      split
      · exact hu.pending
      · exact (unrecorded_restore m q).pending.trans hu.pending
    rw [hset, h.get?_settle hm] at hk
    split at hk
    · simp at hk
    · rename_i hne
      refine ⟨hk, ?_⟩
      rintro rfl
      exact hne hk
  · rw [rollback_settled hm ho] at hk
    exact ⟨hk, h.ne_of_waiting hm ho hk⟩

/-- A card that waits for no move but one, and does not wait for that one afterwards, waits for none. -/
theorem pendingMove_eq_none_of_pending (h : p.Ledger) {n : Nat}
    (hp : ∀ m, p.pendingMove card = some m → m.id = n)
    (hq : ∀ k, Entries.get? card q.pending = some k → Entries.get? card p.pending = some k ∧ k ≠ n) :
    q.pendingMove card = none := by
  unfold pendingMove
  cases hk : Entries.get? card q.pending with
  | none => rfl
  | some k =>
    obtain ⟨hbefore, hne⟩ := hq k hk
    obtain ⟨m, hm, -⟩ := h.waiting hbefore
    obtain ⟨rfl, -⟩ := h.numbered hm
    exact absurd (hp m (h.pendingMove_eq_some_iff.2 ⟨hbefore, hm⟩)) hne

theorem pendingMove_confirm (h : p.Ledger) {m : Move} (hp : p.pendingMove card = some m)
    (stage : Option Key) (position : Option Mark) :
    (p.confirm m.id stage position).pendingMove card = none :=
  pendingMove_eq_none_of_pending h (fun _ hm' => by rw [Option.some.inj (hm'.symm.trans hp)])
    fun _ hk => pending_confirm h (h.of_pendingMove hp).1 stage position hk

/-- A card that waited for no move but the one that failed waits for none. -/
theorem pendingMove_rollback (h : p.Ledger) {n : Nat}
    (hp : ∀ m, p.pendingMove card = some m → m.id = n) (error : Option Reason) :
    (p.rollback n error).pendingMove card = none := by
  refine pendingMove_eq_none_of_pending h hp fun k hk => ?_
  cases hm : Entries.get? n p.moves with
  | some m => exact pending_rollback h hm error hk
  | none =>
    rw [rollback, hm] at hk
    refine ⟨hk, ?_⟩
    rintro rfl
    obtain ⟨m, hm', -⟩ := h.waiting hk
    simp [hm] at hm'

/-- No card waits for a move that is closed, and none for a move that it did not wait for before. -/
theorem Closes.pending {n : Nat} (h : Closes n p q) (hp : p.Ledger) {c : String} {k : Nat}
    (hk : Entries.get? c q.pending = some k) : Entries.get? c p.pending = some k ∧ k ≠ n := by
  cases h with
  | idle hopen =>
    refine ⟨hk, ?_⟩
    rintro rfl
    obtain ⟨m, hm, -, ho, -⟩ := hp.waiting hk
    simp [isOpen, hm, ho] at hopen
  | @done m f hm ho hid hf hs hmark =>
    subst hid
    rw [hp.get?_settle hm] at hk
    split at hk
    · simp at hk
    · rename_i hne
      refine ⟨hk, ?_⟩
      rintro rfl
      exact hne hk

/-- A card that waited for no move but the one that failed waits for none, whatever the failure. -/
theorem pendingMove_act_rollback (h : p.Ledger) {n : Nat}
    (hp : ∀ m, p.pendingMove card = some m → m.id = n) (error : Option Failure) :
    (p.act (.rollback n error)).pendingMove card = none := by
  rcases act_rollback n error p with ⟨reason, -, -, hq⟩ | ⟨fault, -, hq⟩
  · rw [hq]
    exact pendingMove_rollback h hp reason
  · rw [hq]
    exact pendingMove_eq_none_of_pending h hp fun _ hk => (closes_giveUp h n error).pending h hk

/-- Outcomes use up no numbers. -/
theorem nextMove_rollback (h : p.Ledger) (n : Nat) (error : Option Reason) :
    (p.rollback n error).nextMove = p.nextMove := by
  cases hm : Entries.get? n p.moves with
  | none => rw [rollback, hm]
  | some m =>
    by_cases ho : m.state = .optimistic
    · obtain ⟨q, hu, -, -, hq⟩ := rollback_eq h hm ho error
      have hqn : q.nextMove = p.nextMove := hu.nextMove.trans (by simp)
      rw [hq]
      split
      · exact hqn
      · exact (unrecorded_restore m q).nextMove.trans hqn
    · rw [rollback_settled hm ho]

theorem nextMove_confirm (h : p.Ledger) (n : Nat) (stage : Option Key) (x : Mark) :
    (p.confirm n stage (some x)).nextMove = p.nextMove := by
  cases hm : Entries.get? n p.moves with
  | none => rw [confirm, hm]
  | some m =>
    by_cases ho : m.state = .optimistic
    · obtain ⟨q, hqe, hq⟩ := confirm_eq h hm ho stage x
      have hqn : q.nextMove = p.nextMove := by simp [hqe]
      rw [hq]
      split
      · exact (pending_rebase _ _ _ _).2.trans hqn
      · split
        · exact hqn
        · exact (unrecorded_place _ _ _ _).nextMove.trans hqn
    · rw [confirm_settled hm ho]

/-! ## What the server says of a card -/

/-- An event about another card. -/
theorem aside_hear (h : p.Ledger) (hc : card ≠ c) (stage : Key) (x : Float) :
    Aside card p (p.hear c stage (some x)) := by
  refine aside_of_columns (booked_hear h c stage x).2.1 ?_
  rw [live?_hear h, if_neg hc]

theorem aside_remoteMove (h : p.Ledger) (hk : p.keys.Nodup) (hc : card ≠ c) (stage : Key)
    (x : Float) : Aside card p (p.remoteMove c stage x).2 := by
  have hcol := (booked_hear h c stage x).2.1
  refine (aside_hear h hc stage x).trans ?_
  refine (carried_place (keys_congr hcol ▸ hk) c stage (.real x)).aside hc ?_
  exact (unrecorded_place c stage (.real x) _).live? card

/-- A card is taken away for good, and no other. -/
theorem spots_lose (hk : p.keys.Nodup) (c : String) :
    (p.lose c).keys.Nodup ∧ (∀ card, card ≠ c → ((p.lose c).spots card).Perm (p.spots card)) ∧
      ((p.lose c).spots c).length ≤ (p.spots c).length := by
  unfold lose
  cases hl : p.locate c with
  | none => exact ⟨hk, fun _ _ => .refl _, Nat.le_refl _⟩
  | some loc =>
    obtain ⟨k, i⟩ := loc
    obtain ⟨t, ht, rfl⟩ := tileAt_locate hk hl
    refine ⟨nodup_keys_takeOut hk (k, i), fun card hc => ?_, ?_⟩
    · have hout := spots_takeOut hk ht card
      rw [if_neg hc.symm, List.nil_append] at hout
      exact hout.symm
    · rw [(spots_takeOut hk ht t.id).length_eq, List.length_append]
      exact Nat.le_add_left _ _

theorem aside_lose (hk : p.keys.Nodup) (hc : card ≠ c) : Aside card p (p.lose c) where
  spots := (spots_lose hk c).2.1 card hc
  live := (unrecorded_lose c p).1.live? card

/-! ## What the server says of a stage -/

/-- Stages do not matter for where a tile is shown. -/
theorem marks_reseated (fallback : Key) (card : String) (ts : List Tile) :
    marks card (ts.map ({ · with stage := fallback })) = marks card ts := by
  unfold marks
  rw [List.filter_map, List.map_map]
  rfl

/-- Folding a stage carries the tiles of its column to the other one. -/
theorem spots_fold (hk : p.keys.Nodup) (stage fallback : Key) :
    (p.fold stage fallback).2.keys.Nodup ∧ ∀ card,
      ((p.fold stage fallback).2.spots card).Perm
        ((marks card (p.column stage)).map (fallback, ·) ++ p.spotsBeside stage card) := by
  obtain ⟨q, -, hqc, -, hfold⟩ := fold_eq stage fallback p
  obtain ⟨r, hr⟩ : ∃ r, r = q.supersede (leaves stage) := ⟨_, rfl⟩
  have hrc : r.columns = Entries.erase stage p.columns := by
    rw [hr, columns_supersede, hqc]
  have hrk : r.keys.Nodup := by
    rw [keys, hrc]
    exact Entries.nodup_erase hk stage
  have hrs (card : String) : r.spots card = p.spotsBeside stage card := by
    rw [spots, hrc, spotsBeside]
  rw [hfold, ← hr]
  split
  · rename_i hempty
    refine ⟨hrk, fun card => ?_⟩
    rw [List.isEmpty_iff.1 hempty, hrs]
    exact .refl _
  · have hput := columns_resort_setColumn fallback
      (r.column fallback ++ (p.column stage).map ({ · with stage := fallback })) r
    refine ⟨?_, fun card => ?_⟩
    · rw [keys, hput]
      exact Entries.nodup_put hrk _ _
    · -- what was in the other column, what comes to it, and what is beside it
      have hmarks := perm_marks (arrange_perm
        (r.column fallback ++ (p.column stage).map ({ · with stage := fallback }))) card
      have happend : marks card
          (r.column fallback ++ (p.column stage).map ({ · with stage := fallback })) =
            marks card (r.column fallback) ++ marks card (p.column stage) := by
        rw [← marks_reseated fallback card (p.column stage)]
        simp [marks]
      rw [happend] at hmarks
      refine (spots_put hrk hput card).trans (((hmarks.map _).append_right _).trans ?_)
      rw [List.map_append, ← hrs]
      refine ((List.perm_append_comm.append_right _)).trans ?_
      rw [List.append_assoc]
      exact List.Perm.append_left _ (spots_perm hrk fallback card).symm

/-- A card that is shown in one place is in no column but that one. -/
theorem marks_of_alone (hk : p.keys.Nodup) {z : Spot} (hz : p.spots card = [z]) {stage : Key}
    (hs : stage ≠ z.1) : marks card (p.column stage) = [] := by
  have hperm := spots_perm hk stage card
  rw [hz] at hperm
  rw [List.eq_nil_iff_forall_not_mem]
  intro x hx
  have hmem : (stage, x) ∈ [z] :=
    hperm.mem_iff.2 (List.mem_append_left _ (List.mem_map_of_mem hx))
  exact hs (congrArg Prod.fst (List.mem_singleton.1 hmem))

/-- Folding a stage leaves a card alone that is not in its column and has no live move from or to
it. -/
theorem aside_fold (h : p.Ledger) (hk : p.keys.Nodup) {stage : Key}
    (hm : marks card (p.column stage) = []) (hl : ∀ l, p.live? card = some l → leaves stage l = false)
    (fallback : Key) : Aside card p (p.fold stage fallback).2 where
  spots := by
    have hfold := (spots_fold hk stage fallback).2 card
    have hperm := spots_perm hk stage card
    rw [hm] at hfold hperm
    exact hfold.trans hperm.symm
  live := by
    rw [live?_fold h]
    cases hlive : p.live? card with
    | none => rfl
    | some l => simp [Option.filter, hl l hlive]

/-- Dropping a column leaves a card alone that is not in it. -/
theorem aside_drop (hk : p.keys.Nodup) {stage : Key} (hm : marks card (p.column stage) = [])
    {q : Projection} (hu : Unrecorded p q) (hq : q.columns = Entries.erase stage p.columns) :
    Aside card p q where
  spots := by
    have hperm := spots_perm hk stage card
    rw [hm] at hperm
    rw [spots, hq]
    exact hperm.symm
  live := hu.live? card

/-! ## Runs -/

theorem nodup_keys_hear (h : p.Regular) {e : Value} (he : Placed e) :
    (p.act (.hear e)).keys.Nodup := by
  have key := heard e p
  generalize p.act (.hear e) = q at key
  cases key with
  | ignored => exact h.keys
  | unplaced card stage position r hr hm hpos f hf =>
    obtain ⟨x, hx⟩ := he r position hr hm hpos
    simp [hx] at hf
  | lost card stage x r hr hs hn =>
    have hcol := (booked_hear h.ledger card stage x).2.1
    exact (spots_lose (keys_congr hcol ▸ h.keys) card).1
  | moved card stage x =>
    have hcol := (booked_hear h.ledger card stage x).2.1
    exact (carried_place (keys_congr hcol ▸ h.keys) card stage (.real x)).keys
  | emptied stage fallback r hr hs hn =>
    exact Entries.nodup_erase (spots_fold h.keys stage fallback).1 fallback
  | folded stage fallback => exact (spots_fold h.keys stage fallback).1

/-- No event shows a card more often. -/
theorem length_spots_hear (h : p.Regular) {e : Value} (he : Placed e) (c : String) :
    ((p.act (.hear e)).spots c).length ≤ (p.spots c).length := by
  -- a fold carries what is in its column
  have hfold (stage fallback : Key) :
      ((p.fold stage fallback).2.spots c).length = (p.spots c).length := by
    rw [((spots_fold h.keys stage fallback).2 c).length_eq, (spots_perm h.keys stage c).length_eq]
    simp
  have key := heard e p
  generalize p.act (.hear e) = q at key
  cases key with
  | ignored => exact Nat.le_refl _
  | unplaced card stage position r hr hm hpos f hf =>
    obtain ⟨x, hx⟩ := he r position hr hm hpos
    simp [hx] at hf
  | lost card stage x r hr hs hn =>
    have hcol := (booked_hear h.ledger card stage x).2.1
    obtain ⟨-, hothers, hown⟩ := spots_lose (keys_congr hcol ▸ h.keys) card
    rw [← spots_congr hcol c]
    by_cases hc : c = card
    · exact hc ▸ hown
    · exact (hothers c hc).length_eq.le
  | moved card stage x =>
    have hcol := (booked_hear h.ledger card stage x).2.1
    rw [← spots_congr hcol c]
    exact ((carried_place (keys_congr hcol ▸ h.keys) card stage (.real x)).length c).le
  | emptied stage fallback r hr hs hn =>
    rw [← hfold stage fallback]
    rw [((spots_perm (spots_fold h.keys stage fallback).1 fallback c)).length_eq, List.length_append]
    exact Nat.le_add_left _ _
  | folded stage fallback => exact (hfold stage fallback).le

/-- Until the board is read no card is shown more often. -/
theorem length_spots_act (h : p.Regular) (a : Act) (ha : ∀ e, a = .hear e → Placed e)
    (hr : a.isRefresh = false) (c : String) :
    ((p.act a).spots c).length ≤ (p.spots c).length := by
  cases a with
  | begin now card target d a =>
    change ((p.begin now card (.text target) d a).2.1.spots c).length ≤ _
    by_cases hs : p.spots card = []
    · rw [begin_absent (locate_eq_none_iff_spots.2 hs)]
    · obtain ⟨m, x, b, q, hb, -, -, -, -, -, hcar, -⟩ :=
        carried_begin h.keys h.numeric hs (Value.isName_text target) now d a
      rw [hb]
      exact ((hcar.before (columns_track m q)).length c).le
  | confirm n stage position =>
    rw [act_confirm]
    cases position with
    | none =>
      have hcol := (closes_confirm h.ledger n (namedStage stage)).columns
      exact (congrArg List.length (spots_congr hcol c)).le
    | some x =>
      rcases carried_confirm h.ledger h.keys n (namedStage stage) (.real x) with
        hcol | ⟨card, z, hcar⟩
      · exact (congrArg List.length (spots_congr hcol c)).le
      · exact (hcar.length c).le
  | rollback n error =>
    rcases act_rollback n error p with ⟨reason, -, -, hq⟩ | ⟨fault, -, hq⟩
    · rw [hq]
      rcases carried_rollback h.ledger h.keys n reason with hcol | ⟨card, z, hcar⟩
      · exact (congrArg List.length (spots_congr hcol c)).le
      · exact (hcar.length c).le
    · -- An error without words closes the move and leaves the columns alone.
      have hcol := (closes_giveUp h.ledger n error).columns
      rw [hq]
      exact (congrArg List.length (spots_congr hcol c)).le
  | hear e => exact length_spots_hear h (ha e rfl) c
  | refresh payload => simp [Act.isRefresh] at hr

/-- Whatever is done, a regular view stays regular. -/
theorem regular_act (h : p.Regular) (a : Act) (ha : ∀ e, a = .hear e → Placed e) :
    (p.act a).Regular := by
  refine ⟨(entered_act h.toBooks a ha).books, ?_⟩
  cases a with
  | begin now card target d a =>
    change (p.begin now card (.text target) d a).2.1.keys.Nodup
    by_cases hs : p.spots card = []
    · rw [begin_absent (locate_eq_none_iff_spots.2 hs)]
      exact h.keys
    · obtain ⟨m, x, b, q, hb, -, -, -, -, -, hcar, -⟩ :=
        carried_begin h.keys h.numeric hs (Value.isName_text target) now d a
      rw [hb]
      exact (hcar.before (columns_track m q)).keys
  | confirm n stage position =>
    rw [act_confirm]
    cases position with
    | none => exact keys_congr (closes_confirm h.ledger n (namedStage stage)).columns ▸ h.keys
    | some x => exact nodup_keys_confirm h.ledger h.keys n (namedStage stage) (.real x)
  | rollback n error =>
    rcases act_rollback n error p with ⟨reason, -, -, hq⟩ | ⟨fault, -, hq⟩
    · rw [hq]
      exact nodup_keys_rollback h.ledger h.keys n reason
    · rw [hq]
      exact keys_congr (closes_giveUp h.ledger n error).columns ▸ h.keys
  | hear e => exact nodup_keys_hear h (ha e rfl)
  | refresh payload =>
    rcases refreshed payload p with ⟨board, stages, hq⟩ | ⟨board, stages, cs, -, hq⟩
    · rw [hq]
      exact h.keys
    · rw [hq]
      exact nodup_keys_refresh cs _

/-- A card has been moved here and now: the new move is live, and if the card is shown once, it is shown at
the provisional place of the move and agreed to be where it was agreed to be before. -/
structure Sent (card target : String) (p q : Projection) (m : Move) : Prop where
  regular : q.Regular
  live : q.live? card = some m
  stage : m.toStage = .text target
  shown : ∀ {z}, p.spots card = [z] → q.spots card = [(m.toStage, .real m.provisional)]
  pledged : ∀ {z}, Pledged card z p → Pledged card z q

theorem sent_begin (h : p.Regular) (hs : p.spots card ≠ []) (now : Float) (target : String)
    (d : Directive) (a : Allocator) :
    ∃ q b m, p.begin now card (.text target) d a = (.ok p.nextMove, q, b) ∧ m.id = p.nextMove ∧
      Sent card target p q m := by
  have ht := Value.isName_text target
  -- The move that is tracked may have inherited an origin, but its target is its own.
  rcases carried_begin h.keys h.numeric hs ht now d a with
    ⟨m, x, b, q, hbegin, hm, rfl, hstage, hx, -, hcar, hmoves, hpend, -⟩
  have hact : p.act (.begin now m.card target d a) = q.track m := congrArg (·.2.1) hbegin
  have hkept : (p.inherit m).toStage = .text target := (toStage_inherit m p).trans hstage
  refine ⟨q.track m, b, p.inherit m, hbegin, (id_inherit m p).trans hm.id,
    hact ▸ regular_act h _ (by simp), ?_, hkept, fun hz => ?_, fun hz => ?_⟩
  · rw [live?_track h.ledger hm hmoves hpend, if_pos rfl]
  · rw [hkept, provisional_inherit, hx]
    exact (hcar.before (columns_track m q)).alone hz
  · rw [← hact]
    exact pledged_begin h.ledger h.keys h.numeric hz now m.card ht d a

theorem WellPlaced.of_append {as bs : List Act} (h : WellPlaced (as ++ bs)) :
    WellPlaced as ∧ WellPlaced bs :=
  ⟨fun e he => h e (List.mem_append_left _ he), fun e he => h e (List.mem_append_right _ he)⟩

theorem Regular.run (h : p.Regular) {acts : List Act} (ha : WellPlaced acts) :
    (p.run acts).Regular := by
  induction acts using List.reverseRecOn with
  | nil => exact h
  | append_singleton acts a ih =>
    rw [run_concat]
    exact regular_act (ih ha.of_append.1) a fun e he => ha e (by simp [he])

theorem regular_run (board : Key) {acts : List Act} (h : WellPlaced acts) :
    (run { board } acts).Regular := (regular_new board).run h

end Projection

end Kanban
