import Kanban.Proofs.Projection.Hearing

/-!
# Kanban.Proofs.Projection.Onward — what becomes of local moves

Moves are never forgotten, a move that is settled stays so, and a move that is not live any more
never is again. Starting a move adds one; learning the outcome of a move settles it.

* `Onward` — from one projection to a later one, without new moves.
* `settles_confirm`, `settles_rollback` — an outcome settles its move.
* `begun` — starting a move adds it and keeps the others.
-/

namespace Kanban

namespace Projection

variable {p q r : Projection}

/-- A projection is followed by another in which no move is new. -/
structure Onward (p q : Projection) : Prop where
  kept : ∀ {n m}, Entries.get? n p.moves = some m →
    ∃ m', Entries.get? n q.moves = some m' ∧ m'.card = m.card
  unsettled : ∀ {n m}, Entries.get? n q.moves = some m → m.state = .optimistic →
    ∃ m', Entries.get? n p.moves = some m' ∧ m'.state = .optimistic
  live : ∀ {c l}, q.live? c = some l → ∃ l', p.live? c = some l' ∧ l'.id = l.id

theorem Onward.refl (p : Projection) : Onward p p where
  kept := fun hm => ⟨_, hm, rfl⟩
  unsettled := fun hm ho => ⟨_, hm, ho⟩
  live := fun hl => ⟨_, hl, rfl⟩

theorem Onward.trans (h : Onward p q) (h' : Onward q r) : Onward p r where
  kept := by
    intro n m hm
    obtain ⟨m', hm', hc⟩ := h.kept hm
    obtain ⟨m'', hm'', hc'⟩ := h'.kept hm'
    exact ⟨m'', hm'', hc'.trans hc⟩
  unsettled := by
    intro n m hm ho
    obtain ⟨m', hm', ho'⟩ := h'.unsettled hm ho
    exact h.unsettled hm' ho'
  live := by
    intro c l hl
    obtain ⟨l', hl', hid⟩ := h'.live hl
    obtain ⟨l'', hl'', hid'⟩ := h.live hl'
    exact ⟨l'', hl'', hid'.trans hid⟩

theorem Unrecorded.onward (hu : Unrecorded p q) : Onward p q where
  kept := fun hm => ⟨_, hu.moves ▸ hm, rfl⟩
  unsettled := fun hm ho => ⟨_, hu.moves ▸ hm, ho⟩
  live := fun hl => ⟨_, hu.live? _ ▸ hl, rfl⟩

/-- Changing a record without making its move unsettled or live again. -/
theorem onward_updateMove (n : Nat) {f : Move → Move} (hf : Mild f)
    (hs : ∀ m, (f m).state = .optimistic → m.state = .optimistic)
    (ho : ∀ m, (f m).superseded = false → m.superseded = false) (p : Projection) :
    Onward p (p.updateMove n f) where
  kept := by
    intro k m hm
    rw [get?_updateMove]
    split
    · exact ⟨f m, by rw [hm]; rfl, hf.card m⟩
    · exact ⟨m, hm, rfl⟩
  unsettled := by
    intro k m hm hopt
    rw [get?_updateMove] at hm
    split at hm
    · obtain ⟨m', hm', rfl⟩ := Option.map_eq_some_iff.1 hm
      exact ⟨m', hm', hs m' hopt⟩
    · exact ⟨m, hm, hopt⟩
  live := by
    intro c l hl
    obtain ⟨hp, hl⟩ := live?_eq_some_iff.1 hl
    rw [pendingMove, pending_updateMove] at hp
    obtain ⟨k, hk, hm⟩ := Option.bind_eq_some_iff.1 hp
    -- the card waits for the same number as before
    have hpend (m : Move) (hm : Entries.get? k p.moves = some m) : p.pendingMove c = some m := by
      rw [pendingMove, hk]
      exact hm
    rw [get?_updateMove] at hm
    split at hm
    · obtain ⟨m', hm', rfl⟩ := Option.map_eq_some_iff.1 hm
      exact ⟨m', live?_eq_some_iff.2 ⟨hpend m' hm', ho m' hl⟩, (hf.id m').symm⟩
    · exact ⟨l, live?_eq_some_iff.2 ⟨hpend l hm, hl⟩, rfl⟩

theorem onward_clearPending (m : Move) (p : Projection) : Onward p (p.clearPending m) where
  kept := fun hm => ⟨_, (moves_clearPending m p).symm ▸ hm, rfl⟩
  unsettled := fun hm ho => ⟨_, moves_clearPending m p ▸ hm, ho⟩
  live := by
    intro c l hl
    obtain ⟨hp, hs⟩ := live?_eq_some_iff.1 hl
    refine ⟨l, live?_eq_some_iff.2 ⟨?_, hs⟩, rfl⟩
    rw [pendingMove, get?_clearPending, moves_clearPending] at hp
    split at hp
    · simp at hp
    · exact hp

/-! ## Hearing of a card -/

theorem onward_remoteMove (card : String) (stage : Key) (x : Float) (p : Projection) :
    Onward p (p.remoteMove card stage x).2 := by
  have hhear : Onward p (p.hear card stage (some x)) := by
    unfold hear
    split
    · exact .refl p
    · rename_i m _
      split
      · exact .refl p
      · split
        · refine (onward_updateMove m.id ?_ ?_ ?_ p).trans (onward_clearPending m _)
          · exact mild_succeeded (.real x)
          · simp
          · simp
        · refine onward_updateMove m.id ?_ ?_ ?_ p
          · exact mild_overridden
          · simp
          · simp
  exact hhear.trans (unrecorded_place card stage (.real x) _).onward

/-! ## Outcomes -/

/-- A projection is followed by another in which a move is settled. -/
structure Settles (n : Nat) (p q : Projection) : Prop where
  onward : Onward p q
  settled : ∀ {m}, Entries.get? n q.moves = some m → m.state ≠ .optimistic

theorem settles_refl {n : Nat} {m : Move} (hm : Entries.get? n p.moves = some m)
    (hs : m.state ≠ .optimistic) : Settles n p p := by
  refine ⟨.refl p, fun {m'} hm' => ?_⟩
  obtain rfl : m = m' := Option.some.inj (hm.symm.trans hm')
  exact hs

/-- Whatever follows once the record of a move says that it is settled. -/
theorem Onward.settles {n : Nat} {m : Move} {f : Move → Move} (hf : Mild f)
    (hs : ∀ m, (f m).state ≠ .optimistic) (ho : ∀ m, (f m).superseded = m.superseded)
    (h : Onward ((p.updateMove n f).clearPending m) q) : Settles n p q where
  onward := by
    refine ((onward_updateMove n hf (fun m hm => absurd hm (hs m)) (fun m hm => ?_) p).trans
      (onward_clearPending m _)).trans h
    exact (ho m).symm.trans hm
  settled := by
    intro m' hm' hopt
    -- were it unsettled later, its record would be unsettled now
    obtain ⟨m'', hm'', hopt'⟩ := h.unsettled hm' hopt
    rw [moves_clearPending, get?_updateMove, if_pos rfl] at hm''
    obtain ⟨m₀, -, rfl⟩ := Option.map_eq_some_iff.1 hm''
    exact hs m₀ hopt'

theorem onward_rebase (m : Move) (stage : Key) (x : Mark) (p : Projection) :
    Onward p (p.rebase m stage x) := by
  unfold rebase
  dsimp only
  split
  · exact .refl p
  · exact onward_updateMove _ (mild_redirected stage x _) (fun _ h => h) (fun _ h => h) p

/-- A success settles its move. -/
theorem settles_confirm {n : Nat} {m : Move} (hm : Entries.get? n p.moves = some m)
    (stage : Option Key) (x : Mark) : Settles n p (p.confirm n stage (some x)) := by
  by_cases hs : m.state = .optimistic
  · refine Onward.settles (m := m) (mild_succeeded x) (fun _ => by simp [succeeded])
      (fun _ => rfl) ?_
    unfold confirm
    simp only [hm, hs, ne_eq, not_true, if_false, Option.map_some, Option.getD_some]
    split
    · exact onward_rebase m _ x _
    · split
      · exact .refl _
      · exact (unrecorded_place m.card _ x _).onward
  · rw [confirm_settled hm hs]
    exact settles_refl hm hs

/-- A failure settles its move. -/
theorem settles_rollback {n : Nat} {m : Move} (hm : Entries.get? n p.moves = some m)
    (error : Option Reason) : Settles n p (p.rollback n error) := by
  by_cases hs : m.state = .optimistic
  · refine Onward.settles (m := m) (mild_failed (error.map (·.failure)))
      (fun _ => by simp [failed]) (fun _ => rfl) ?_
    unfold rollback giveUp
    simp only [hm, hs, ne_eq, not_true, if_false]
    have hwords : Unrecorded ((p.updateMove n (failed (error.map (·.failure)))).clearPending m)
        { (p.updateMove n (failed (error.map (·.failure)))).clearPending m with
          error := error.map Reason.words } := ⟨rfl, rfl, rfl⟩
    -- what is done to the columns then changes no record
    split
    · exact hwords.onward
    · split
      · exact hwords.onward.trans (unrecorded_banish m _).onward
      · exact hwords.onward.trans (unrecorded_restore m _).onward
  · rw [rollback_settled hm hs]
    exact settles_refl hm hs

/-! ## Starting a move -/

/-- A projection is followed by another in which one move is new. -/
structure Begun (n : Nat) (card : String) (p q : Projection) : Prop where
  fresh : Entries.get? n p.moves = none
  added : ∃ m, Entries.get? n q.moves = some m ∧ m.card = card
  kept : ∀ {k m}, Entries.get? k p.moves = some m →
    ∃ m', Entries.get? k q.moves = some m' ∧ m'.card = m.card
  unsettled : ∀ {k m}, Entries.get? k q.moves = some m → m.state = .optimistic →
    k = n ∨ ∃ m', Entries.get? k p.moves = some m' ∧ m'.state = .optimistic
  live : ∀ {c l}, q.live? c = some l → l.id = n ∨ p.live? c = some l

/-- Starting a move of a card that is shown adds one. -/
theorem begun (h : p.Sound) {card : String} (hc : (p.spot? card).isSome) (now : Float)
    {target : Key} (ht : target.isName = true) (d : Directive) (a : Allocator) :
    ∃ n q b, p.begin now card target d a = (.ok n, q, b) ∧ Begun n card p q := by
  obtain ⟨m, x, b, q, hb, hm, hcard, -, -, -, hmoves, hpend, -⟩ :=
    begin_shown h.tidy ht hc now d a
  have hget (k : Nat) : Entries.get? k (q.track m).moves =
      if k = m.id then some (p.inherit m) else (Entries.get? k p.moves).map (p.giveWay m) := by
    rw [moves_track_congr hmoves hpend, h.ledger.get?_track]
  -- the new number is not in use
  have hfresh : Entries.get? m.id p.moves = none := by
    rw [Option.eq_none_iff_forall_ne_some]
    intro m' hm'
    have hlt := (h.ledger.numbered hm').2
    rw [hm.id] at hlt
    exact Nat.lt_irrefl _ hlt
  refine ⟨m.id, q.track m, b, hb, hfresh, ?_, ?_, ?_, ?_⟩
  · exact ⟨p.inherit m, by rw [hget, if_pos rfl], (card_inherit m p).trans hcard⟩
  · intro k m' hm'
    have hne : k ≠ m.id := by
      rintro rfl
      simp [hfresh] at hm'
    exact ⟨p.giveWay m m', by rw [hget, if_neg hne, hm']; rfl, card_giveWay m m' p⟩
  · intro k m' hm' ho
    rw [hget] at hm'
    split at hm'
    · rename_i hk
      exact .inl hk
    · obtain ⟨m₀, hm₀, rfl⟩ := Option.map_eq_some_iff.1 hm'
      exact .inr ⟨m₀, hm₀, (state_giveWay m m₀ p).symm.trans ho⟩
  · intro c l hl
    rw [live?_track h.ledger hm hmoves hpend] at hl
    split at hl
    · obtain rfl := Option.some.inj hl
      exact .inl (id_inherit m p)
    · exact .inr hl

end Projection

end Kanban
