import Kanban.Proofs.Projection.Ledger

/-!
# Kanban.Proofs.Projection.Agreement — the place a client has agreed with the server

While a local move is live its card is shown at a provisional place, and the place that the server
is taken to know is where the move goes back to. `agreed?` is that place, or the place shown if no
move is live. Local moves come and go without changing it; only what the server says does.

* `agreed?_begin`, `agreed?_rollback` — starting a move and failing leave the agreed place alone.
* `agreed?_confirm` — a success sets it, if the move or the one that replaced it is still live.
* `Sound` — kept by all of these.
* `Closes` — a move that is settled while the board stays as it is: a failure without words
  (`closes_giveUp`) and a success that tells no position (`closes_confirm`).
-/

namespace Kanban

namespace Projection

variable {p q : Projection}

/-- A projection in order: what it shows and what it records. -/
structure Sound (p : Projection) : Prop where
  tidy : p.Tidy
  ledger : p.Ledger

/-- The place of a card that the client takes to be the server's. -/
def agreed? (card : String) (p : Projection) : Option Spot :=
  (p.spot? card).map fun z => ((p.live? card).map Move.origin).getD z

theorem sound_new (board : Key) : Sound { board } where
  tidy := by
    refine ⟨⟨List.nodup_nil, by simp⟩, ?_, ?_, rfl⟩
    · simp [tiles]
    · simp [tiles]
  ledger := ledger_new board

theorem agreed?_of_not_live {card : String} (h : p.live? card = none) :
    p.agreed? card = p.spot? card := by
  simp [agreed?, h]

theorem agreed?_congr {card : String} (hs : q.spot? card = p.spot? card)
    (hl : q.live? card = p.live? card) : q.agreed? card = p.agreed? card := by
  rw [agreed?, agreed?, hs, hl]

theorem isSome_agreed? (card : String) (p : Projection) :
    (p.agreed? card).isSome = (p.spot? card).isSome := by
  rw [agreed?, Option.isSome_map]

/-- What an agreed place is replaced by does not depend on the place. -/
theorem map_agreed? (card : String) (p : Projection) (z : Spot) :
    (p.agreed? card).map (fun _ => z) = (p.spot? card).map fun _ => z := by
  rw [agreed?, Option.map_map]
  rfl

theorem live?_congr {card : String} (h : q.pendingMove card = p.pendingMove card) :
    q.live? card = p.live? card := by
  rw [live?, live?, h]

theorem live?_eq_some_iff {card : String} {m : Move} :
    p.live? card = some m ↔ p.pendingMove card = some m ∧ m.superseded = false := by
  simp [live?, Option.filter_eq_some_iff]

theorem live?_of_not_pending {card : String} (h : p.pendingMove card = none) :
    p.live? card = none := by
  rw [live?, h]
  rfl

/-! ## Starting a move -/

/-- Starting a move of a card that is found, to a column of numbers: the card is taken out and put where
the directive says, and the move is recorded. -/
theorem begin_eq {card : String} {k : Key} {i : Nat} {t : Tile}
    (hl : p.locate card = some (k, i)) (ht : p.tileAt (k, i) = some t) {target : Key}
    (hn : target.isName = true)
    (hranked : ∀ u ∈ (p.takeOut (k, i)).column target, u.position.number?.isSome) (now : Float)
    (d : Directive) (a : Allocator) :
    ∃ r j x b, r = { p.takeOut (k, i) with
        nextMove := p.nextMove + 1
        columns := Entries.ensure target [] (p.takeOut (k, i)).columns } ∧
      j ≤ (r.column target).length ∧ aim now d (r.column target) a = (.ok (j, x), b) ∧
      p.begin now card target d a = (.ok p.nextMove,
        (r.putIn target j { t with position := .real x }).track
          { id := p.nextMove, card, fromStage := k, fromIndex := i, fromMark := t.position
            toStage := target, directive := d, provisional := x }, b) := by
  obtain ⟨r, hr⟩ : ∃ r : Projection, r = { p.takeOut (k, i) with
      nextMove := p.nextMove + 1
      columns := Entries.ensure target [] (p.takeOut (k, i)).columns } := ⟨_, rfl⟩
  have hrn : ∀ u ∈ r.column target, u.position.number?.isSome := by
    have hcol : r.column target = (p.takeOut (k, i)).column target := by
      rw [hr]
      exact column_open target (p.takeOut (k, i)) target
    rwa [hcol]
  -- all positions are numbers, so the directive finds one and the column can be put in order
  obtain ⟨j, x, b, haim, hj⟩ := aim_ok hrn now d a
  have hcalm : (r.putIn target j { t with position := .real x }).jumbled = false :=
    jumbled_putIn hrn rfl
  refine ⟨r, j, x, b, hr, hj, haim, ?_⟩
  simp only [begin, hl, ht, hn, Bool.not_true, Bool.false_eq_true, if_false]
  rw [← hr, haim]
  simp [hcalm]

/-- What starting a move of a card that is shown comes to. -/
theorem begin_shown (h : p.Tidy) {card : String} {target : Key} (ht : target.isName = true)
    (hc : (p.spot? card).isSome) (now : Float) (d : Directive) (a : Allocator) :
    ∃ m x b q, p.begin now card target d a = (.ok m.id, q.track m, b) ∧ p.Fresh m ∧
      m.card = card ∧ m.toStage = target ∧ p.spot? card = some m.origin ∧
      Landed card target (.real x) p q ∧ q.moves = p.moves ∧ q.pending = p.pending ∧
      q.nextMove = p.nextMove + 1 := by
  cases hl : p.locate card with
  | none => simp [spot?, tile?, hl] at hc
  | some loc =>
    obtain ⟨k, i⟩ := loc
    obtain ⟨t, htile, rfl, hst⟩ := h.tileAt_locate hl
    have hspot : p.spot? t.id = some (t.stage, t.position) := by
      simp [spot?, tile?, hl, htile]
    obtain ⟨r, j, x, b, hr, hj, -, hb⟩ :=
      begin_eq hl htile ht ((h.numeric.takeOut _).column _) now d a
    -- the projection without the card, its target column opened
    have hout := h.toHomed.takeOut (k, i)
    have hrh : r.Homed := (hout.open target).congr (by rw [hr])
    have hrt : r.tiles = (p.takeOut (k, i)).tiles :=
      (tiles_congr (by rw [hr])).trans (tiles_open (p.takeOut (k, i)) target)
    have hro (ho : (p.takeOut (k, i)).Ordered) : r.Ordered :=
      (Each.open ho hereditary_pairwise target).congr (by rw [hr])
    have hland := landed_putIn h htile hrh (.of_eq hrt) hro hj (x := .real x) rfl
    refine ⟨{ id := p.nextMove, card := t.id, fromStage := k, fromIndex := i, fromMark := t.position
              toStage := target, directive := d, provisional := x }, x, b, _, hb,
      ⟨rfl, rfl, rfl, rfl, h.ranked t (mem_tiles_of_tileAt htile), rfl⟩, rfl, rfl, ?_, hland, ?_,
      ?_, ?_⟩
    · rw [hspot, hst]
      rfl
    · rw [hr]; rfl
    · rw [hr]; rfl
    · rw [hr]; rfl

/-- Starting a move of a card that is not shown does nothing. -/
theorem begin_absent {card : String} (hc : p.locate card = none) (now : Float) (target : Key)
    (d : Directive) (a : Allocator) :
    p.begin now card target d a = (.error (.notOnBoard card p.board), p, a) := by
  simp [begin, hc]

theorem locate_eq_none_of_spot? (h : p.Tidy) {card : String} (hc : p.spot? card = none) :
    p.locate card = none := by
  rw [locate_eq_none_iff]
  exact h.tile?_eq_none_iff.1 (Option.map_eq_none_iff.1 hc)

/-- Records are tracked in the same way whatever the columns are. -/
theorem moves_track_congr (hm : q.moves = p.moves) (hp : q.pending = p.pending) (m : Move) :
    (q.track m).moves = (p.track m).moves := by
  -- a record is looked up and changed among the records alone
  have hu (n : Nat) (f : Move → Move) : (q.updateMove n f).moves = (p.updateMove n f).moves := by
    unfold updateMove
    rw [hm]
    cases Entries.get? n p.moves <;> simp [hm]
  unfold track
  rw [pendingMove_congr hm hp]
  cases p.pendingMove m.card with
  | none => simp [hm]
  | some previous => simp only [hu]

/-- Tracking a new move after the columns were changed. -/
theorem Sound.track (h : p.Sound) {m : Move} (hm : p.Fresh m) (hq : q.Tidy)
    (hmoves : q.moves = p.moves) (hpend : q.pending = p.pending)
    (hnext : q.nextMove = p.nextMove + 1) : (q.track m).Sound where
  tidy := hq.congr (columns_track m q) (jumbled_track m q)
  ledger := by
    refine (h.ledger.track hm).congr (moves_track_congr hmoves hpend m) ?_ ?_
    · rw [pending_track, hpend, ← pending_track]
    · rw [nextMove_track, hnext]

theorem live?_track (h : p.Ledger) {m : Move} (hm : p.Fresh m) (hmoves : q.moves = p.moves)
    (hpend : q.pending = p.pending) (c : String) :
    (q.track m).live? c = if c = m.card then some (p.inherit m) else p.live? c := by
  have hpm : (q.track m).pendingMove c = (p.track m).pendingMove c :=
    pendingMove_congr (moves_track_congr hmoves hpend m)
      (by rw [pending_track, hpend, pending_track]) c
  rw [live?, hpm, pendingMove_track h hm]
  by_cases hc : c = m.card
  · simp [hc, Option.filter, superseded_inherit, hm.superseded]
  · rw [if_neg hc, if_neg hc, live?]

theorem sound_begin (h : p.Sound) (now : Float) (card : String) {target : Key}
    (ht : target.isName = true) (d : Directive) (a : Allocator) :
    (p.begin now card target d a).2.1.Sound := by
  cases hc : p.spot? card with
  | none =>
    rw [begin_absent (locate_eq_none_of_spot? h.tidy hc)]
    exact h
  | some z =>
    obtain ⟨m, x, b, q, hb, hm, -, -, -, hl, hmoves, hpend, hnext⟩ :=
      begin_shown h.tidy ht (Option.isSome_of_eq_some hc) now d a
    rw [hb]
    exact h.track hm (hl.tidy h.tidy rfl) hmoves hpend hnext

/-- Starting a move leaves the agreed place of every card alone. -/
theorem agreed?_begin (h : p.Sound) (now : Float) (card : String) {target : Key}
    (ht : target.isName = true) (d : Directive) (a : Allocator) (c : String) :
    (p.begin now card target d a).2.1.agreed? c = p.agreed? c := by
  cases hs : p.spot? card with
  | none => rw [begin_absent (locate_eq_none_of_spot? h.tidy hs)]
  | some z =>
    obtain ⟨m, x, b, q, hb, hm, hcard, -, horig, hl, hmoves, hpend, -⟩ :=
      begin_shown h.tidy ht (Option.isSome_of_eq_some hs) now d a
    have hlive := live?_track h.ledger hm hmoves hpend c
    have hspot : (q.track m).spot? c = _ :=
      (spot?_congr (columns_track m q) c).trans (hl.spot? h.tidy rfl c)
    rw [hb]
    by_cases hc : c = card
    · -- the new move goes back to where the card was, or to where a live move would go back to
      subst hc
      rw [hcard, if_pos rfl] at hlive
      rw [if_pos rfl] at hspot
      rw [agreed?, hspot, hlive, agreed?, hs, ← hcard, Option.map_some, origin_inherit, hcard]
      rw [hs] at horig
      simp [Option.some.inj horig]
    · rw [hcard, if_neg hc] at hlive
      rw [if_neg hc] at hspot
      exact agreed?_congr hspot hlive

/-! ## Settling a move -/

theorem live?_settle (h : p.Ledger) {m : Move} (hm : Entries.get? m.id p.moves = some m)
    (f : Move → Move) (c : String) :
    ((p.updateMove m.id f).clearPending m).live? c =
      if p.pendingMove c = some m then none else p.live? c := by
  rw [live?, pendingMove_settle h hm, live?]
  split <;> rfl

theorem Sound.settle (h : p.Sound) {m : Move} (hm : Entries.get? m.id p.moves = some m)
    {f : Move → Move} (hf : Mild f) (hs : (f m).state ≠ .optimistic)
    (hmark : (f m).fromMark = m.fromMark) :
    ((p.updateMove m.id f).clearPending m).Sound where
  tidy := h.tidy.congr (by simp) (by simp)
  ledger := h.ledger.settle hm hf hs hmark

/-- Changing columns only. -/
theorem Sound.show (h : p.Sound) (hq : q.Tidy) (hm : q.moves = p.moves) (hp : q.pending = p.pending)
    (hn : q.nextMove = p.nextMove) : q.Sound := ⟨hq, h.ledger.congr hm hp hn⟩

/-- What putting a card somewhere leaves alone. -/
structure Unrecorded (p q : Projection) : Prop where
  moves : q.moves = p.moves
  pending : q.pending = p.pending
  nextMove : q.nextMove = p.nextMove

theorem Unrecorded.live? (hu : Unrecorded p q) (c : String) : q.live? c = p.live? c :=
  live?_congr (pendingMove_congr hu.moves hu.pending c)

theorem unrecorded_withdraw (place : Key × Nat) (p : Projection) :
    Unrecorded p (p.withdraw place) := by
  dsimp only [withdraw]
  split <;> exact ⟨rfl, rfl, rfl⟩

theorem unrecorded_restore (m : Move) (p : Projection) : Unrecorded p (p.restore m) := by
  unfold restore
  split
  · exact ⟨rfl, rfl, rfl⟩
  · rename_i k i _
    split
    · exact ⟨rfl, rfl, rfl⟩
    · have hu := unrecorded_withdraw (k, i) p
      exact ⟨hu.moves, hu.pending, hu.nextMove⟩

theorem unrecorded_banish (m : Move) (p : Projection) : Unrecorded p (p.banish m) := by
  unfold banish
  split
  · exact ⟨rfl, rfl, rfl⟩
  · rename_i place _
    have hu := unrecorded_withdraw place p
    exact ⟨hu.moves, hu.pending, hu.nextMove⟩

theorem unrecorded_place (card : String) (stage : Key) (x : Mark) (p : Projection) :
    Unrecorded p (p.place card stage x) := by
  unfold place
  split
  · exact ⟨rfl, rfl, rfl⟩
  · split
    · exact ⟨rfl, rfl, rfl⟩
    · split <;> exact ⟨rfl, rfl, rfl⟩

/-- A card without a live move that is put somewhere is agreed to be there. -/
theorem agreed?_place (h : p.Tidy) {card : String} (hl : p.live? card = none) (stage : Key) {x : Mark}
    (hx : x.number?.isSome) (c : String) :
    (p.place card stage x).agreed? c =
      if c = card then (p.agreed? c).map fun _ => (stage, x) else p.agreed? c := by
  have hu := (unrecorded_place card stage x p).live? c
  have hs := (landed_place h card stage hx).spot? h hx c
  by_cases hc : c = card
  · subst hc
    rw [if_pos rfl] at hs
    rw [if_pos rfl, agreed?_of_not_live (hu.trans hl), hs, map_agreed?]
  · rw [if_neg hc] at hs
    rw [if_neg hc]
    exact agreed?_congr hs hu

/-- The unsettled move that nothing has overridden or replaced is the live one of its card. -/
theorem Ledger.live?_of_unsettled (h : p.Ledger) {n : Nat} {m : Move}
    (hm : Entries.get? n p.moves = some m) (ho : m.state = .optimistic)
    (hr : m.replacedBy = none) (hs : m.superseded = false) : p.live? m.card = some m :=
  live?_eq_some_iff.2 ⟨h.pendingMove_of_unsettled hm ho hr, hs⟩

/-- Settling a move that is overridden or replaced leaves every live move alone. -/
theorem live?_settle_of_stale (h : p.Ledger) {m : Move} (hm : Entries.get? m.id p.moves = some m)
    (hstale : m.superseded = true ∨ m.replacedBy ≠ none) (f : Move → Move) (c : String) :
    ((p.updateMove m.id f).clearPending m).live? c = p.live? c := by
  rw [live?_settle h hm]
  split
  · rename_i hp
    -- the card waited for the move, but as it was overridden it was not live either
    have hover : m.superseded = true := hstale.resolve_right fun hr =>
      hr (h.of_pendingMove hp).2.2.2
    rw [live?, hp]
    simp [Option.filter, hover]
  · rfl

/-- Settling the live move of a card leaves the live moves of all other cards alone. -/
theorem live?_settle_live (h : p.Ledger) {m : Move} (hl : p.live? m.card = some m)
    (f : Move → Move) (c : String) :
    ((p.updateMove m.id f).clearPending m).live? c = if c = m.card then none else p.live? c := by
  have hp := (live?_eq_some_iff.1 hl).1
  rw [live?_settle h (h.of_pendingMove hp).1]
  by_cases hc : c = m.card
  · subst hc
    rw [if_pos hp, if_pos rfl]
  · rw [if_neg hc, if_neg]
    intro hpc
    exact hc (h.of_pendingMove hpc).2.1.symm

/-! ## A failure -/

/-- The record of a move that has failed. -/
def failed (error : Option Failure) (m : Move) : Move := { m with state := .rolledBack, error }

theorem mild_failed (error : Option Failure) : Mild (failed error) :=
  ⟨fun _ => rfl, fun _ => rfl, fun _ => rfl, fun _ => id⟩

/-- A failure of an unsettled move settles it. -/
theorem giveUp_eq {n : Nat} {m : Move} (h : p.Ledger) (hm : Entries.get? n p.moves = some m)
    (ho : m.state = .optimistic) (error : Option Failure) :
    p.giveUp n error = (p.updateMove m.id (failed error)).clearPending m := by
  obtain ⟨rfl, -⟩ := h.numbered hm
  simp only [giveUp, hm, ho, ne_eq, not_true, if_false]
  rfl

/-- A failure of an unsettled move: the move is settled, and its card goes back if the move is
live. -/
theorem rollback_eq {n : Nat} {m : Move} (h : p.Ledger) (hm : Entries.get? n p.moves = some m)
    (ho : m.state = .optimistic) (error : Option Reason) :
    ∃ q, Unrecorded ((p.updateMove m.id (failed (error.map (·.failure)))).clearPending m) q ∧
      q.columns = p.columns ∧ q.jumbled = p.jumbled ∧
      p.rollback n error = if m.superseded || m.replacedBy.isSome then q else q.restore m := by
  have hgiven := giveUp_eq h hm ho (error.map (·.failure))
  refine ⟨{ (p.updateMove m.id (failed (error.map (·.failure)))).clearPending m with
    error := error.map Reason.words }, ⟨rfl, rfl, rfl⟩, ?_, ?_, ?_⟩
  · exact (columns_clearPending _ _).trans (columns_updateMove _ _ _)
  · exact (jumbled_clearPending _ _).trans (jumbled_updateMove _ _ _)
  · -- no success has left the move without a place to go back to
    simp only [rollback, hm, ho, ne_eq, not_true, if_false, hgiven, h.anchored hm,
      Bool.false_eq_true]

theorem sound_rollback (h : p.Sound) (n : Nat) (error : Option Reason) :
    (p.rollback n error).Sound := by
  cases hm : Entries.get? n p.moves with
  | none => simpa [rollback, hm] using h
  | some m =>
    by_cases ho : m.state = .optimistic
    · obtain ⟨q, hu, hc, hj, hq⟩ := rollback_eq h.ledger hm ho error
      have hset := h.settle (h.ledger.numbered_id hm) (mild_failed (error.map (·.failure)))
        (by simp [failed]) rfl
      have hqs : q.Sound := hset.show (h.tidy.congr hc hj) hu.moves hu.pending hu.nextMove
      rw [hq]
      split
      · exact hqs
      · -- the card goes back, to a position that is a number
        have hur := unrecorded_restore m q
        have hrank := h.ledger.ranked hm
        exact hqs.show ((landed_restore hqs.tidy hrank).tidy hqs.tidy hrank) hur.moves hur.pending
          hur.nextMove
    · rw [rollback_settled hm ho]
      exact h

/-- A failure leaves the agreed place of every card alone. -/
theorem agreed?_rollback (h : p.Sound) (n : Nat) (error : Option Reason) (c : String) :
    (p.rollback n error).agreed? c = p.agreed? c := by
  cases hm : Entries.get? n p.moves with
  | none => simp [rollback, hm]
  | some m =>
    by_cases ho : m.state = .optimistic
    · obtain ⟨q, hu, hcol, hj, hq⟩ := rollback_eq h.ledger hm ho error
      have hid := h.ledger.numbered_id hm
      have hspot (d : String) : q.spot? d = p.spot? d := spot?_congr hcol d
      rw [hq]
      split
      · -- overridden or replaced: only the record changes
        rename_i hstale
        refine agreed?_congr (hspot c) ((hu.live? c).trans ?_)
        refine live?_settle_of_stale h.ledger hid ?_ (failed (error.map (·.failure))) c
        simpa [Option.isSome_iff_ne_none] using hstale
      · -- live: the card goes back to where the move took it from
        rename_i hlive
        simp only [Bool.or_eq_true, not_or, Bool.not_eq_true, Option.isSome_eq_false_iff,
          Option.isNone_iff_eq_none] at hlive
        have hl := h.ledger.live?_of_unsettled hm ho hlive.2 hlive.1
        have hqt : q.Tidy := h.tidy.congr hcol hj
        have hland := landed_restore hqt (h.ledger.ranked hm)
        have hlr := ((unrecorded_restore m q).live? c).trans
          ((hu.live? c).trans (live?_settle_live h.ledger hl (failed (error.map (·.failure))) c))
        have hsr := hland.spot? hqt (h.ledger.ranked hm) c
        by_cases hc : c = m.card
        · subst hc
          rw [if_pos rfl] at hlr hsr
          rw [agreed?_of_not_live hlr, hsr, hspot, agreed?, hl]
          rfl
        · rw [if_neg hc] at hlr hsr
          exact agreed?_congr (hsr.trans (hspot c)) hlr
    · rw [rollback_settled hm ho]

/-! ## A success -/

/-- The live move that replaced a move, at the end of the chain. -/
def heir? (m : Move) (p : Projection) : Option Move :=
  let last := p.latest p.moves.length m
  if m.replacedBy.isSome && last.state = .optimistic && !last.superseded then some last else none

theorem Ledger.heir_spec (h : p.Ledger) {m l : Move} (hm : Entries.get? m.id p.moves = some m)
    (hl : p.heir? m = some l) :
    l = p.latest p.moves.length m ∧ p.live? m.card = some l := by
  obtain ⟨hget, hcard, hrep⟩ :=
    h.latest_spec p.moves.length hm (List.length_filter_le _ _)
  unfold heir? at hl
  dsimp only at hl
  split at hl
  · rename_i hcond
    simp only [Bool.and_eq_true, decide_eq_true_eq, Bool.not_eq_true'] at hcond
    obtain rfl := Option.some.inj hl
    refine ⟨rfl, ?_⟩
    rw [← hcard]
    exact h.live?_of_unsettled hget hcond.1.2 hrep hcond.2
  · simp at hl

/-- A chain of replaced moves looks at moves with higher numbers only. -/
theorem Ledger.latest_congr (h : p.Ledger) (fuel : Nat) {m : Move}
    (hm : Entries.get? m.id p.moves = some m)
    (hq : ∀ k, m.id < k → Entries.get? k q.moves = Entries.get? k p.moves) :
    q.latest fuel m = p.latest fuel m := by
  induction fuel generalizing m with
  | zero => rfl
  | succ fuel ih =>
    cases hr : m.replacedBy with
    | none => simp [latest, hr]
    | some k =>
      obtain ⟨hlt, m', hm', -⟩ := h.chained hm hr
      obtain ⟨rfl, -⟩ := h.numbered hm'
      -- the next move of the chain has a higher number
      simp only [latest, hr, Option.bind_some, hq _ hlt, hm']
      exact ih hm' fun k hk => hq k (Nat.lt_trans hlt hk)

theorem length_updateMove (n : Nat) (f : Move → Move) (p : Projection) :
    (p.updateMove n f).moves.length = p.moves.length := by
  unfold updateMove
  cases hn : Entries.get? n p.moves with
  | none => rfl
  | some m =>
    have hk := Entries.keys_put_of_mem (Entries.mem_keys_of_get? hn) (f m)
    simpa [Entries.keys] using congrArg List.length hk

/-- The record of a move that goes back to another place. -/
def redirected (stage : Key) (x : Mark) (i : Nat) (m : Move) : Move :=
  { m with fromStage := stage, fromMark := x, stray := false, fromIndex := i }

theorem mild_redirected (stage : Key) (x : Mark) (i : Nat) : Mild (redirected stage x i) :=
  ⟨fun _ => rfl, fun _ => rfl, fun _ => rfl, fun _ _ => rfl⟩

/-- What the success of a replaced move does to the move that replaced it. -/
theorem rebase_eq {m : Move} (hr : m.replacedBy.isSome) (stage : Key) (x : Mark)
    (p : Projection) :
    p.rebase m stage x = match p.heir? m with
      | none => p
      | some l => p.updateMove l.id (redirected stage x (p.column stage).length) := by
  unfold rebase heir?
  simp only [hr, Bool.true_and]
  by_cases ho : (p.latest p.moves.length m).state = .optimistic
  · cases hs : (p.latest p.moves.length m).superseded
    · simp only [ho, ne_eq, not_true, Bool.false_eq_true, or_self, if_false, decide_true,
        Bool.not_false, Bool.and_self, if_true]
      rfl
    · simp [ho]
  · simp [ho]

/-- The record of a move that has succeeded. -/
def succeeded (x : Mark) (m : Move) : Move := { m with state := .confirmed, committed := x.toValue }

theorem mild_succeeded (x : Mark) : Mild (succeeded x) :=
  ⟨fun _ => rfl, fun _ => rfl, fun _ => rfl, fun _ => id⟩

theorem heir?_settle (h : p.Ledger) {m : Move} (hm : Entries.get? m.id p.moves = some m)
    (f : Move → Move) : ((p.updateMove m.id f).clearPending m).heir? m = p.heir? m := by
  have hlen : ((p.updateMove m.id f).clearPending m).moves.length = p.moves.length := by
    rw [moves_clearPending, length_updateMove]
  -- the settled move is not looked at again: the chain leads to higher numbers
  have hlatest : ((p.updateMove m.id f).clearPending m).latest p.moves.length m =
      p.latest p.moves.length m := by
    refine h.latest_congr _ hm fun k hk => ?_
    rw [get?_moves_settle, if_neg (Nat.ne_of_gt hk)]
  unfold heir?
  rw [hlen, hlatest]

/-- A success of an unsettled move: the move is settled, and the committed place is shown if the move
is live, or is where the live move that replaced it goes back to. -/
theorem confirm_eq {n : Nat} {m : Move} (h : p.Ledger) (hm : Entries.get? n p.moves = some m)
    (ho : m.state = .optimistic) (stage : Option Key) (x : Mark) :
    ∃ q, q = (p.updateMove m.id (succeeded x)).clearPending m ∧
      p.confirm n stage (some x) =
        if m.replacedBy.isSome then q.rebase m (stage.getD m.toStage) x
        else if m.superseded then q
        else q.place m.card (stage.getD m.toStage) x := by
  obtain ⟨rfl, -⟩ := h.numbered hm
  refine ⟨_, rfl, ?_⟩
  simp only [confirm, hm, ho, ne_eq, not_true, if_false, Option.map_some, Option.getD_some]
  rfl

/-- The record of a move that has succeeded somewhere. -/
def succeededSomewhere (m : Move) : Move := { m with state := .confirmed, committed := .null }

theorem mild_succeededSomewhere : Mild succeededSomewhere :=
  ⟨fun _ => rfl, fun _ => rfl, fun _ => rfl, fun _ => id⟩

/-- A success of an unsettled move that tells no position: the move is settled. -/
theorem confirm_bare_eq {n : Nat} {m : Move} (h : p.Ledger) (hm : Entries.get? n p.moves = some m)
    (ho : m.state = .optimistic) (stage : Option Key) :
    p.confirm n stage none = (p.updateMove m.id succeededSomewhere).clearPending m := by
  obtain ⟨rfl, -⟩ := h.numbered hm
  simp only [confirm, hm, ho, ne_eq, not_true, if_false, Option.map_none, Option.getD_none]
  rfl

theorem Sound.rebase (h : p.Sound) {m : Move} (hr : m.replacedBy.isSome) (stage : Key) {x : Mark}
    (hx : x.number?.isSome) : (p.rebase m stage x).Sound := by
  rw [rebase_eq hr]
  cases p.heir? m with
  | none => exact h
  | some l =>
    refine ⟨h.tidy.congr (by simp) (by simp), ?_⟩
    refine h.ledger.revise (h.ledger.revised_updateMove l.id (mild_redirected _ _ _)
      fun _ => rfl) fun m' hm' => ?_
    split
    · exact hx
    · exact hm'

theorem sound_confirm (h : p.Sound) (n : Nat) (stage : Option Key) {x : Mark}
    (hx : x.number?.isSome) : (p.confirm n stage (some x)).Sound := by
  cases hm : Entries.get? n p.moves with
  | none => simpa [confirm, hm] using h
  | some m =>
    by_cases ho : m.state = .optimistic
    · obtain ⟨q, hq, hc⟩ := confirm_eq h.ledger hm ho stage x
      have hqs : q.Sound := hq ▸
        h.settle (h.ledger.numbered_id hm) (mild_succeeded x) (by simp [succeeded]) rfl
      rw [hc]
      split
      · rename_i hr
        exact hqs.rebase hr _ hx
      · split
        · exact hqs
        · have hu := unrecorded_place m.card (stage.getD m.toStage) x q
          exact hqs.show ((landed_place hqs.tidy m.card _ hx).tidy hqs.tidy hx) hu.moves
            hu.pending hu.nextMove
    · rw [confirm_settled hm ho]
      exact h

/-- A live move that goes back to another place is as live. -/
theorem live?_redirected (h : p.Ledger) {d : String} {l : Move} (hl : p.live? d = some l)
    (stage : Key) (x : Mark) (i : Nat) (c : String) :
    (p.updateMove l.id (redirected stage x i)).live? c =
      if c = d then some (redirected stage x i l) else p.live? c := by
  have hp := live?_eq_some_iff.1 hl
  obtain ⟨hget, hcard, -⟩ := h.of_pendingMove hp.1
  rw [live?, pendingMove_revise (h.revised_updateMove l.id (mild_redirected stage x i)
    fun _ => rfl)]
  by_cases hc : c = d
  · subst hc
    rw [hp.1, if_pos rfl]
    simp [Option.filter, redirected, hp.2]
  · rw [if_neg hc, live?]
    cases hpc : p.pendingMove c with
    | none => rfl
    | some m =>
      obtain ⟨hget', hcard', -⟩ := h.of_pendingMove hpc
      -- no move is of two cards
      have hne : m.id ≠ l.id := by
        intro heq
        rw [heq, hget, Option.some.injEq] at hget'
        exact hc (hcard'.symm.trans (hget' ▸ hcard))
      simp [hne]

/-- When a replaced move succeeds, the place where it was committed is what the live move that replaced
it goes back to, and so it is the agreed one. -/
theorem agreed?_rebase (h : p.Ledger) {m : Move} (hr : m.replacedBy.isSome)
    (hl : ∀ l, p.heir? m = some l → p.live? m.card = some l) (stage : Key) (x : Mark) (c : String) :
    (p.rebase m stage x).agreed? c =
      if c = m.card ∧ (p.heir? m).isSome then (p.agreed? c).map fun _ => (stage, x)
      else p.agreed? c := by
  rw [rebase_eq hr]
  cases hh : p.heir? m with
  | none => rw [if_neg (by simp)]
  | some l =>
    have hlive := live?_redirected h (hl l hh) stage x (p.column stage).length c
    have hspot :=
      spot?_congr (columns_updateMove l.id (redirected stage x (p.column stage).length) p) c
    by_cases hc : c = m.card
    · rw [if_pos hc] at hlive
      rw [if_pos ⟨hc, rfl⟩, agreed?, hspot, hlive, map_agreed?]
      rfl
    · rw [if_neg hc] at hlive
      rw [if_neg (by simp [hc])]
      exact agreed?_congr hspot hlive

/-- A success sets the agreed place of its card if the move is live or was replaced by one that is
live, and changes no other agreed place. -/
theorem agreed?_confirm (h : p.Sound) {n : Nat} {m : Move} (hm : Entries.get? n p.moves = some m)
    (ho : m.state = .optimistic) (stage : Option Key) {x : Mark} (hx : x.number?.isSome)
    (c : String) :
    (p.confirm n stage (some x)).agreed? c =
      if c = m.card ∧ (p.live? c = some m ∨ (p.heir? m).isSome) then
        (p.agreed? c).map fun _ => (stage.getD m.toStage, x)
      else p.agreed? c := by
  obtain ⟨q, hq, hc⟩ := confirm_eq h.ledger hm ho stage x
  have hid := h.ledger.numbered_id hm
  have hqs : q.Sound := hq ▸ h.settle hid (mild_succeeded x) (by simp [succeeded]) rfl
  have hspot (d : String) : q.spot? d = p.spot? d := spot?_congr (by simp [hq]) d
  rw [hc]
  cases hr : m.replacedBy with
  | some k =>
    -- replaced: the live move at the end of the chain goes back to the committed place
    have hnot : p.live? c ≠ some m := by
      intro hl
      simp [(h.ledger.of_pendingMove (live?_eq_some_iff.1 hl).1).2.2.2] at hr
    have hql (d : String) : q.live? d = p.live? d := by
      rw [hq]
      exact live?_settle_of_stale h.ledger hid (.inr (by simp [hr])) (succeeded x) d
    have hqh : q.heir? m = p.heir? m := by
      rw [hq]
      exact heir?_settle h.ledger hid (succeeded x)
    have hlive (l : Move) (hl : q.heir? m = some l) : q.live? m.card = some l :=
      (hql m.card).trans (h.ledger.heir_spec hid (hqh ▸ hl)).2
    rw [Option.isSome_some, if_pos rfl, agreed?_rebase hqs.ledger (by simp [hr]) hlive, hqh,
      agreed?_congr (hspot c) (hql c)]
    simp only [hnot, false_or]
  | none =>
    have hh : p.heir? m = none := by simp [heir?, hr]
    rw [Option.isSome_none, if_neg (by simp), hh]
    cases hs : m.superseded with
    | true =>
      -- overridden: nothing changes
      have hnot : p.live? c ≠ some m := by
        intro hl
        simp [(live?_eq_some_iff.1 hl).2] at hs
      have hql := live?_settle_of_stale h.ledger hid (.inl hs) (succeeded x) c
      rw [if_pos rfl, if_neg (by simp [hnot])]
      exact agreed?_congr (hspot c) (hq ▸ hql)
    | false =>
      -- live: the card is put at the committed place
      have hl := h.ledger.live?_of_unsettled hm ho hr hs
      have hql (d : String) : q.live? d = if d = m.card then none else p.live? d := by
        rw [hq]
        exact live?_settle_live h.ledger hl (succeeded x) d
      rw [if_neg (by simp), agreed?_place hqs.tidy ((hql m.card).trans (if_pos rfl)) _ hx]
      by_cases hcm : c = m.card
      · subst hcm
        rw [if_pos rfl, if_pos ⟨rfl, .inl hl⟩, map_agreed?, map_agreed?, hspot]
      · rw [if_neg hcm, if_neg (by simp [hcm])]
        exact agreed?_congr (hspot c) ((hql c).trans (if_neg hcm))

/-! ## Settling and nothing else -/

/-- A move is settled if it was not, and that is all. -/
inductive Closes (n : Nat) (p : Projection) : Projection → Prop where
  | idle (h : p.isOpen n = false) : Closes n p p
  | done {m : Move} {f : Move → Move} (hm : Entries.get? n p.moves = some m)
      (ho : m.state = .optimistic) (hid : m.id = n) (hf : Mild f) (hs : (f m).state ≠ .optimistic)
      (hmark : (f m).fromMark = m.fromMark) : Closes n p ((p.updateMove m.id f).clearPending m)

/-- A failure that has no words settles its move and does nothing else. -/
theorem closes_giveUp (h : p.Ledger) (n : Nat) (error : Option Failure) :
    Closes n p (p.giveUp n error) := by
  cases hm : Entries.get? n p.moves with
  | none =>
    rw [giveUp, hm]
    exact .idle (by simp [isOpen, hm])
  | some m =>
    by_cases ho : m.state = .optimistic
    · rw [giveUp_eq h hm ho]
      exact .done hm ho (h.numbered hm).1 (mild_failed error) (by simp [failed]) rfl
    · rw [giveUp_settled hm ho]
      exact .idle (by simp [isOpen, hm, ho])

/-- A success that tells no position settles its move and does nothing else. -/
theorem closes_confirm (h : p.Ledger) (n : Nat) (stage : Option Key) :
    Closes n p (p.confirm n stage none) := by
  cases hm : Entries.get? n p.moves with
  | none =>
    rw [confirm, hm]
    exact .idle (by simp [isOpen, hm])
  | some m =>
    by_cases ho : m.state = .optimistic
    · rw [confirm_bare_eq h hm ho]
      exact .done hm ho (h.numbered hm).1 mild_succeededSomewhere
        (by simp [succeededSomewhere]) rfl
    · rw [confirm_settled hm ho]
      exact .idle (by simp [isOpen, hm, ho])

namespace Closes

variable {n : Nat}

theorem columns (h : Closes n p q) : q.columns = p.columns := by
  cases h <;> simp

theorem jumbled (h : Closes n p q) : q.jumbled = p.jumbled := by
  cases h <;> simp

theorem ledger (h : Closes n p q) (hp : p.Ledger) : q.Ledger := by
  cases h with
  | idle => exact hp
  | done hm ho hid hf hs hmark => exact hp.settle (hid ▸ hm) hf hs hmark

theorem sound (h : Closes n p q) (hp : p.Sound) : q.Sound :=
  ⟨hp.tidy.congr h.columns h.jumbled, h.ledger hp.ledger⟩

/-- The moves that are live afterwards are those that were, but for the settled one. -/
theorem live (h : Closes n p q) (hp : p.Ledger) (c : String) :
    q.live? c = if (p.live? c).any (·.id = n) then none else p.live? c := by
  cases hl : p.live? c with
  | none =>
    cases h with
    | idle => simp [hl]
    | done hm ho hid => simp [live?_settle hp (hid ▸ hm), hl]
  | some l =>
    have hwait := (live?_eq_some_iff.1 hl).1
    obtain ⟨hget, -, hlo, -⟩ := hp.of_pendingMove hwait
    cases h with
    | idle hopen =>
      have hne : l.id ≠ n := by
        rintro rfl
        simp [isOpen, hget, hlo] at hopen
      simp [hl, hne]
    | @done m f hm ho hid =>
      -- the card waits for its live move and for no other
      subst hid
      rw [live?_settle hp hm, hwait, hl]
      by_cases hid : l.id = m.id
      · rw [hid, hm] at hget
        simp [Option.some.inj hget]
      · have hne : l ≠ m := fun heq => hid (congrArg Move.id heq)
        simp [hid, hne]

/-- The end of a live move leaves its card where it is shown, for good. -/
theorem agreed? (h : Closes n p q) (hp : p.Ledger) (c : String) :
    q.agreed? c = if (p.live? c).any (·.id = n) then p.spot? c else p.agreed? c := by
  rw [Projection.agreed?, h.live hp, spot?_congr h.columns c]
  split
  · simp
  · rfl

end Closes

end Projection

end Kanban
