import Kanban.Proofs.Projection.Columns

/-!
# Kanban.Proofs.Projection.Ledger — the records of local moves

A projection numbers its moves and keeps, for every card, the number of the move that waits for its
outcome. The move that waits is the one unsettled move of the card that no later move replaced;
replaced moves form chains that lead up to it.

* `Ledger` — how the records hang together.
* `Ledger.revise`, `Ledger.settle`, `Ledger.track` — every change of a record keeps this.
* `pendingMove_revise`, `pendingMove_settle`, `pendingMove_track` — the move that waits afterwards.
* `Ledger.latest_spec` — a chain of replaced moves ends in a move that nothing replaced.
-/

namespace Kanban

/-- The place that a move goes back to. -/
def Move.origin (m : Move) : Key × Mark := (m.fromStage, m.fromMark)

namespace Projection

variable {p q : Projection}

/-- How the records of moves hang together. -/
structure Ledger (p : Projection) : Prop where
  numbered : ∀ {n m}, Entries.get? n p.moves = some m → m.id = n ∧ n < p.nextMove
  keys : (Entries.keys p.pending).Nodup
  waiting : ∀ {c n}, Entries.get? c p.pending = some n →
    ∃ m, Entries.get? n p.moves = some m ∧ m.card = c ∧ m.state = .optimistic ∧ m.replacedBy = none
  tracked : ∀ {n m}, Entries.get? n p.moves = some m → m.state = .optimistic →
    m.replacedBy = none → Entries.get? m.card p.pending = some n
  chained : ∀ {n m k}, Entries.get? n p.moves = some m → m.replacedBy = some k →
    n < k ∧ ∃ m', Entries.get? k p.moves = some m' ∧ m'.card = m.card
  ranked : ∀ {n m}, Entries.get? n p.moves = some m → m.fromMark.number?.isSome
  anchored : ∀ {n m}, Entries.get? n p.moves = some m → m.stray = false

theorem Ledger.numbered_id (h : p.Ledger) {n : Nat} {m : Move}
    (hm : Entries.get? n p.moves = some m) : Entries.get? m.id p.moves = some m :=
  (h.numbered hm).1 ▸ hm

/-- Two cards do not wait for one move. -/
theorem Ledger.card_of_waiting (h : p.Ledger) {c : String} {n : Nat} {m : Move}
    (hc : Entries.get? c p.pending = some n) (hm : Entries.get? n p.moves = some m) :
    m.card = c := by
  obtain ⟨m', hm', hcard, -⟩ := h.waiting hc
  obtain rfl : m = m' := Option.some.inj (hm.symm.trans hm')
  exact hcard

/-- The move that a card waits for. -/
theorem Ledger.pendingMove_eq_some_iff (h : p.Ledger) {c : String} {m : Move} :
    p.pendingMove c = some m ↔
      Entries.get? c p.pending = some m.id ∧ Entries.get? m.id p.moves = some m := by
  unfold pendingMove
  rw [Option.bind_eq_some_iff]
  constructor
  · rintro ⟨n, hc, hm⟩
    obtain ⟨rfl, -⟩ := h.numbered hm
    exact ⟨hc, hm⟩
  · rintro ⟨hc, hm⟩
    exact ⟨m.id, hc, hm⟩

theorem Ledger.of_pendingMove (h : p.Ledger) {c : String} {m : Move}
    (hm : p.pendingMove c = some m) :
    Entries.get? m.id p.moves = some m ∧ m.card = c ∧ m.state = .optimistic ∧
      m.replacedBy = none := by
  obtain ⟨hc, hm⟩ := h.pendingMove_eq_some_iff.1 hm
  obtain ⟨m', hm', hcard⟩ := h.waiting hc
  obtain rfl : m = m' := Option.some.inj (hm.symm.trans hm')
  exact ⟨hm, hcard⟩

/-- An unsettled move that nothing replaced is the one its card waits for. -/
theorem Ledger.pendingMove_of_unsettled (h : p.Ledger) {n : Nat} {m : Move}
    (hm : Entries.get? n p.moves = some m) (hs : m.state = .optimistic)
    (hr : m.replacedBy = none) : p.pendingMove m.card = some m :=
  h.pendingMove_eq_some_iff.2 ⟨(h.numbered hm).1 ▸ h.tracked hm hs hr, h.numbered_id hm⟩

/-- A card waits for a move if it waits for a number. -/
theorem Ledger.pendingMove_eq_none_iff (h : p.Ledger) {c : String} :
    p.pendingMove c = none ↔ Entries.get? c p.pending = none := by
  unfold pendingMove
  cases hk : Entries.get? c p.pending with
  | none => simp
  | some k =>
    obtain ⟨m, hm, -⟩ := h.waiting hk
    simp [hm]

theorem ledger_new (board : Key) : Ledger { board } where
  numbered := by simp
  keys := List.nodup_nil
  waiting := by simp
  tracked := by simp
  chained := by simp
  ranked := by simp
  anchored := by simp

theorem Ledger.congr (h : p.Ledger) (hm : q.moves = p.moves) (hp : q.pending = p.pending)
    (hn : q.nextMove = p.nextMove) : q.Ledger where
  numbered := by rw [hm, hn]; exact h.numbered
  keys := by rw [hp]; exact h.keys
  waiting := by rw [hm, hp]; exact h.waiting
  tracked := by rw [hm, hp]; exact h.tracked
  chained := by rw [hm]; exact h.chained
  ranked := by rw [hm]; exact h.ranked
  anchored := by rw [hm]; exact h.anchored

theorem pendingMove_congr (hm : q.moves = p.moves) (hp : q.pending = p.pending) (c : String) :
    q.pendingMove c = p.pendingMove c := by
  rw [pendingMove, pendingMove, hm, hp]

/-! ## Revising records -/

@[simp] theorem columns_updateMove (n : Nat) (f : Move → Move) (p : Projection) :
    (p.updateMove n f).columns = p.columns := by
  unfold updateMove
  split <;> rfl

@[simp] theorem pending_updateMove (n : Nat) (f : Move → Move) (p : Projection) :
    (p.updateMove n f).pending = p.pending := by
  unfold updateMove
  split <;> rfl

@[simp] theorem nextMove_updateMove (n : Nat) (f : Move → Move) (p : Projection) :
    (p.updateMove n f).nextMove = p.nextMove := by
  unfold updateMove
  split <;> rfl

@[simp] theorem jumbled_updateMove (n : Nat) (f : Move → Move) (p : Projection) :
    (p.updateMove n f).jumbled = p.jumbled := by
  unfold updateMove
  split <;> rfl

@[simp] theorem board_updateMove (n : Nat) (f : Move → Move) (p : Projection) :
    (p.updateMove n f).board = p.board := by
  unfold updateMove
  split <;> rfl

theorem get?_updateMove (n k : Nat) (f : Move → Move) (p : Projection) :
    Entries.get? k (p.updateMove n f).moves =
      if k = n then (Entries.get? k p.moves).map f else Entries.get? k p.moves := by
  unfold updateMove
  cases hn : Entries.get? n p.moves with
  | none =>
    by_cases hk : k = n
    · simp [hk, hn]
    · simp [hk]
  | some m =>
    by_cases hk : k = n
    · simp [hk, hn]
    · simp [hk, Entries.get?_put_of_ne hk]

/-- A change of a record that leaves alone what the other records rely on. -/
structure Mild (g : Move → Move) : Prop where
  id : ∀ m, (g m).id = m.id
  card : ∀ m, (g m).card = m.card
  replacedBy : ∀ m, (g m).replacedBy = m.replacedBy
  stray : ∀ m, m.stray = false → (g m).stray = false

/-- Changing records without settling a move. -/
structure Revised (g : Move → Move) (p q : Projection) : Prop where
  mild : Mild g
  state : ∀ m, (g m).state = m.state
  moves : ∀ k, Entries.get? k q.moves = (Entries.get? k p.moves).map g
  pending : q.pending = p.pending
  nextMove : q.nextMove = p.nextMove

theorem Revised.exists_of_get? {g : Move → Move} (hr : Revised g p q) {k : Nat} {m : Move}
    (hm : Entries.get? k q.moves = some m) :
    ∃ m₀, Entries.get? k p.moves = some m₀ ∧ g m₀ = m :=
  Option.map_eq_some_iff.1 ((hr.moves k).symm.trans hm)

theorem Ledger.revise (h : p.Ledger) {g : Move → Move} (hr : Revised g p q)
    (hmark : ∀ m, m.fromMark.number?.isSome → (g m).fromMark.number?.isSome) : q.Ledger where
  numbered := by
    intro n m hm
    obtain ⟨m₀, hm₀, rfl⟩ := hr.exists_of_get? hm
    rw [hr.mild.id, hr.nextMove]
    exact h.numbered hm₀
  keys := hr.pending ▸ h.keys
  waiting := by
    intro c n hc
    obtain ⟨m, hm, hcard, hs, hrep⟩ := h.waiting (hr.pending ▸ hc)
    refine ⟨g m, by rw [hr.moves, hm]; rfl, ?_, ?_, ?_⟩
    · rw [hr.mild.card, hcard]
    · rw [hr.state, hs]
    · rw [hr.mild.replacedBy, hrep]
  tracked := by
    intro n m hm hs hrep
    obtain ⟨m₀, hm₀, rfl⟩ := hr.exists_of_get? hm
    rw [hr.mild.card, hr.pending]
    exact h.tracked hm₀ (hr.state m₀ ▸ hs) (hr.mild.replacedBy m₀ ▸ hrep)
  chained := by
    intro n m k hm hk
    obtain ⟨m₀, hm₀, rfl⟩ := hr.exists_of_get? hm
    obtain ⟨hlt, m', hm', hcard⟩ := h.chained hm₀ (hr.mild.replacedBy m₀ ▸ hk)
    exact ⟨hlt, g m', by rw [hr.moves, hm']; rfl, by rw [hr.mild.card, hr.mild.card, hcard]⟩
  ranked := by
    intro n m hm
    obtain ⟨m₀, hm₀, rfl⟩ := hr.exists_of_get? hm
    exact hmark m₀ (h.ranked hm₀)
  anchored := by
    intro n m hm
    obtain ⟨m₀, hm₀, rfl⟩ := hr.exists_of_get? hm
    exact hr.mild.stray m₀ (h.anchored hm₀)

theorem pendingMove_revise {g : Move → Move} (hr : Revised g p q) (c : String) :
    q.pendingMove c = (p.pendingMove c).map g := by
  rw [pendingMove, pendingMove, hr.pending]
  cases Entries.get? c p.pending with
  | none => rfl
  | some n => exact hr.moves n

/-- Changing one record is changing the records with its number. -/
theorem Ledger.revised_updateMove (h : p.Ledger) (n : Nat) {f : Move → Move} (hf : Mild f)
    (hs : ∀ m, (f m).state = m.state) :
    Revised (fun m => if m.id = n then f m else m) p (p.updateMove n f) where
  mild := by
    constructor <;> intro m <;> split
    · exact hf.id m
    · rfl
    · exact hf.card m
    · rfl
    · exact hf.replacedBy m
    · rfl
    · exact hf.stray m
    · exact id
  state := by
    intro m
    split
    · exact hs m
    · rfl
  moves := by
    intro k
    rw [get?_updateMove]
    cases hm : Entries.get? k p.moves with
    | none => simp
    | some m =>
      -- records are filed under their numbers
      obtain ⟨rfl, -⟩ := h.numbered hm
      by_cases hk : m.id = n <;> simp [hk]
  pending := pending_updateMove n f p
  nextMove := nextMove_updateMove n f p

/-! ## Overriding moves -/

@[simp] theorem columns_supersede (test : Move → Bool) (p : Projection) :
    (p.supersede test).columns = p.columns := by
  unfold supersede
  induction Entries.values p.pending generalizing p with
  | nil => rfl
  | cons n ns ih => exact (ih _).trans (columns_updateMove _ _ p)

@[simp] theorem pending_supersede (test : Move → Bool) (p : Projection) :
    (p.supersede test).pending = p.pending := by
  unfold supersede
  induction Entries.values p.pending generalizing p with
  | nil => rfl
  | cons n ns ih => exact (ih _).trans (pending_updateMove _ _ p)

@[simp] theorem nextMove_supersede (test : Move → Bool) (p : Projection) :
    (p.supersede test).nextMove = p.nextMove := by
  unfold supersede
  induction Entries.values p.pending generalizing p with
  | nil => rfl
  | cons n ns ih => exact (ih _).trans (nextMove_updateMove _ _ p)

@[simp] theorem jumbled_supersede (test : Move → Bool) (p : Projection) :
    (p.supersede test).jumbled = p.jumbled := by
  unfold supersede
  induction Entries.values p.pending generalizing p with
  | nil => rfl
  | cons n ns ih => exact (ih _).trans (jumbled_updateMove _ _ p)

@[simp] theorem board_supersede (test : Move → Bool) (p : Projection) :
    (p.supersede test).board = p.board := by
  unfold supersede
  induction Entries.values p.pending generalizing p with
  | nil => rfl
  | cons n ns ih => exact (ih _).trans (board_updateMove _ _ p)

/-- A move that a test overrides. -/
def overridden (test : Move → Bool) (m : Move) : Move :=
  { m with superseded := m.superseded || test m }

/-- Overriding marks the moves that wait, each once. -/
theorem get?_supersede {test : Move → Bool} (hn : (Entries.values p.pending).Nodup) (k : Nat) :
    Entries.get? k (p.supersede test).moves =
      if k ∈ Entries.values p.pending then (Entries.get? k p.moves).map (overridden test)
      else Entries.get? k p.moves := by
  unfold supersede
  generalize Entries.values p.pending = ns at hn
  induction ns generalizing p with
  | nil => simp
  | cons n ns ih =>
    rw [List.nodup_cons] at hn
    rw [List.foldl_cons, ih hn.2, get?_updateMove]
    by_cases hk : k = n
    · -- marked here and not again: each number waits once
      subst hk
      simp [hn.1]
      rfl
    · simp [hk]

theorem Ledger.nodup_values (h : p.Ledger) : (Entries.values p.pending).Nodup := by
  -- two cards that wait for one move are the same card
  have hinj : ∀ e ∈ p.pending, ∀ e' ∈ p.pending, e.2 = e'.2 → e = e' := by
    rintro ⟨c, n⟩ he ⟨c', n'⟩ he' rfl
    have hc := (Entries.mem_iff_get? h.keys).1 he
    have hc' := (Entries.mem_iff_get? h.keys).1 he'
    obtain ⟨m, hm, hcard, -⟩ := h.waiting hc
    rw [← hcard, h.card_of_waiting hc' hm]
  exact List.Nodup.map_on hinj (List.Nodup.of_map _ h.keys)

/-- Overriding is a revision, of the moves that wait. -/
theorem Ledger.revised_supersede (h : p.Ledger) (test : Move → Bool) :
    Revised (fun m => if m.id ∈ Entries.values p.pending then overridden test m else m) p
      (p.supersede test) where
  mild := by
    constructor <;> intro m <;> split
    all_goals first | rfl | exact id
  state := by
    intro m
    split <;> rfl
  moves := by
    intro k
    rw [get?_supersede h.nodup_values]
    cases hm : Entries.get? k p.moves with
    | none => simp
    | some m =>
      obtain ⟨rfl, -⟩ := h.numbered hm
      by_cases hk : m.id ∈ Entries.values p.pending <;> simp [hk]
  pending := pending_supersede test p
  nextMove := nextMove_supersede test p

theorem Ledger.supersede (h : p.Ledger) (test : Move → Bool) : (p.supersede test).Ledger :=
  h.revise (h.revised_supersede test) fun m hm => by
    split <;> exact hm

theorem pendingMove_supersede (h : p.Ledger) (test : Move → Bool) (c : String) :
    (p.supersede test).pendingMove c = (p.pendingMove c).map (overridden test) := by
  rw [pendingMove_revise (h.revised_supersede test)]
  -- what a card waits for is among the moves that are marked
  refine Option.map_congr fun m hm => ?_
  exact if_pos (Entries.mem_values_of_get? (h.pendingMove_eq_some_iff.1 hm).1)

/-! ## Settling a move -/

@[simp] theorem columns_clearPending (m : Move) (p : Projection) :
    (p.clearPending m).columns = p.columns := by
  unfold clearPending
  split <;> rfl

@[simp] theorem moves_clearPending (m : Move) (p : Projection) :
    (p.clearPending m).moves = p.moves := by
  unfold clearPending
  split <;> rfl

@[simp] theorem nextMove_clearPending (m : Move) (p : Projection) :
    (p.clearPending m).nextMove = p.nextMove := by
  unfold clearPending
  split <;> rfl

@[simp] theorem board_clearPending (m : Move) (p : Projection) :
    (p.clearPending m).board = p.board := by
  unfold clearPending
  split <;> rfl

@[simp] theorem jumbled_clearPending (m : Move) (p : Projection) :
    (p.clearPending m).jumbled = p.jumbled := by
  unfold clearPending
  split <;> rfl

theorem get?_clearPending (m : Move) (p : Projection) (c : String) :
    Entries.get? c (p.clearPending m).pending =
      if c = m.card ∧ Entries.get? m.card p.pending = some m.id then none
      else Entries.get? c p.pending := by
  unfold clearPending
  by_cases hm : Entries.get? m.card p.pending = some m.id
  · by_cases hc : c = m.card <;> simp [hm, hc, Entries.get?_erase]
  · simp [hm]

/-- After the move a card waited for is settled, the card waits for nothing. -/
theorem Ledger.get?_settle (h : p.Ledger) {m : Move} (hm : Entries.get? m.id p.moves = some m)
    (f : Move → Move) (c : String) :
    Entries.get? c ((p.updateMove m.id f).clearPending m).pending =
      if Entries.get? c p.pending = some m.id then none else Entries.get? c p.pending := by
  rw [get?_clearPending, pending_updateMove]
  by_cases hc : Entries.get? c p.pending = some m.id
  · have hcard := h.card_of_waiting hc hm
    simp [hc, hcard]
  · have hne : ¬(c = m.card ∧ Entries.get? m.card p.pending = some m.id) := by
      rintro ⟨rfl, hc'⟩
      exact hc hc'
    rw [if_neg hne, if_neg hc]

theorem pendingMove_settle (h : p.Ledger) {m : Move} (hm : Entries.get? m.id p.moves = some m)
    (f : Move → Move) (c : String) :
    ((p.updateMove m.id f).clearPending m).pendingMove c =
      if p.pendingMove c = some m then none else p.pendingMove c := by
  -- a card waits for the move iff it waits for its number
  have hiff : p.pendingMove c = some m ↔ Entries.get? c p.pending = some m.id := by
    rw [h.pendingMove_eq_some_iff]
    exact and_iff_left hm
  simp only [hiff]
  rw [pendingMove, h.get?_settle hm, moves_clearPending]
  by_cases hc : Entries.get? c p.pending = some m.id
  · simp [hc]
  · rw [if_neg hc, if_neg hc, pendingMove]
    cases hn : Entries.get? c p.pending with
    | none => rfl
    | some n =>
      have hne : n ≠ m.id := fun heq => hc (heq ▸ hn)
      rw [Option.bind_some, Option.bind_some, get?_updateMove, if_neg hne]

/-- The records after a move is settled. -/
theorem get?_moves_settle (m : Move) (f : Move → Move) (p : Projection) (k : Nat) :
    Entries.get? k ((p.updateMove m.id f).clearPending m).moves =
      if k = m.id then (Entries.get? k p.moves).map f else Entries.get? k p.moves := by
  rw [moves_clearPending, get?_updateMove]

/-- A record after a move is settled is that of the move, or one that was there before. -/
theorem settle_cases {m : Move} (hm : Entries.get? m.id p.moves = some m) {f : Move → Move} {k : Nat}
    {m' : Move} (hk : Entries.get? k ((p.updateMove m.id f).clearPending m).moves = some m') :
    (k = m.id ∧ m' = f m) ∨ (k ≠ m.id ∧ Entries.get? k p.moves = some m') := by
  rw [get?_moves_settle] at hk
  by_cases hkm : k = m.id
  · rw [if_pos hkm, hkm, hm] at hk
    exact .inl ⟨hkm, (Option.some.inj hk).symm⟩
  · rw [if_neg hkm] at hk
    exact .inr ⟨hkm, hk⟩

/-- Every record that a chain goes on with is still there after a move is settled. -/
theorem exists_settle (m : Move) {f : Move → Move} (hf : Mild f) {k : Nat} {m' : Move}
    (hk : Entries.get? k p.moves = some m') :
    ∃ m'', Entries.get? k ((p.updateMove m.id f).clearPending m).moves = some m'' ∧
      m''.card = m'.card := by
  rw [get?_moves_settle, hk]
  by_cases hkm : k = m.id
  · exact ⟨f m', by rw [if_pos hkm]; rfl, hf.card m'⟩
  · exact ⟨m', by rw [if_neg hkm], rfl⟩

theorem Ledger.settle (h : p.Ledger) {m : Move} (hm : Entries.get? m.id p.moves = some m)
    {f : Move → Move} (hf : Mild f) (hs : (f m).state ≠ .optimistic)
    (hmark : (f m).fromMark = m.fromMark) :
    ((p.updateMove m.id f).clearPending m).Ledger where
  numbered := by
    intro k m' hk
    rw [nextMove_clearPending, nextMove_updateMove]
    rcases settle_cases hm hk with ⟨rfl, rfl⟩ | ⟨-, hk⟩
    · exact ⟨hf.id m, (h.numbered hm).2⟩
    · exact h.numbered hk
  keys := by
    unfold clearPending
    split
    · exact Entries.nodup_erase (by rw [pending_updateMove]; exact h.keys) _
    · rw [pending_updateMove]; exact h.keys
  waiting := by
    -- the card that waited for the settled move waits no more
    intro c n hc
    rw [h.get?_settle hm] at hc
    split at hc
    · simp at hc
    · rename_i hne
      obtain ⟨m', hm', hrest⟩ := h.waiting hc
      have hnm : n ≠ m.id := fun heq => hne (heq ▸ hc)
      exact ⟨m', by rw [get?_moves_settle, if_neg hnm, hm'], hrest⟩
  tracked := by
    -- the settled move is not unsettled
    intro k m' hk hs' hr
    rcases settle_cases hm hk with ⟨rfl, rfl⟩ | ⟨hkm, hk⟩
    · exact absurd hs' hs
    · have hc := h.tracked hk hs' hr
      rw [h.get?_settle hm, if_neg, hc]
      rw [hc, Option.some.injEq]
      exact hkm
  chained := by
    intro k m' j hk hj
    rcases settle_cases hm hk with ⟨rfl, rfl⟩ | ⟨-, hk⟩
    · rw [hf.replacedBy] at hj
      obtain ⟨hlt, m'', hm'', hcard⟩ := h.chained hm hj
      obtain ⟨n, hn, hn'⟩ := exists_settle m hf hm''
      exact ⟨hlt, n, hn, by rw [hn', hcard, hf.card]⟩
    · obtain ⟨hlt, m'', hm'', hcard⟩ := h.chained hk hj
      obtain ⟨n, hn, hn'⟩ := exists_settle m hf hm''
      exact ⟨hlt, n, hn, hn'.trans hcard⟩
  ranked := by
    intro k m' hk
    rcases settle_cases hm hk with ⟨rfl, rfl⟩ | ⟨-, hk⟩
    · rw [hmark]
      exact h.ranked hm
    · exact h.ranked hk
  anchored := by
    intro k m' hk
    rcases settle_cases hm hk with ⟨rfl, rfl⟩ | ⟨-, hk⟩
    · exact hf.stray m (h.anchored hm)
    · exact h.anchored hk

/-! ## Tracking a new move -/

/-- The unsettled move of a card, unless an event or a refresh has overridden it. -/
def live? (card : String) (p : Projection) : Option Move :=
  (p.pendingMove card).filter (!·.superseded)

/-- What a new move is recorded as: it goes back to where a live move of the card would go back
to. -/
def inherit (p : Projection) (m : Move) : Move :=
  match p.live? m.card with
  | none => m
  | some l =>
    { m with
      fromStage := l.fromStage, fromIndex := l.fromIndex, fromMark := l.fromMark, stray := l.stray }

/-- The record of a move of the same card after a new move: the one the card waited for is
replaced. -/
def giveWay (p : Projection) (m m' : Move) : Move :=
  if p.pendingMove m.card = some m' then { m' with replacedBy := some m.id } else m'

@[simp] theorem columns_track (m : Move) (p : Projection) : (p.track m).columns = p.columns := by
  unfold track
  split
  · rfl
  · exact columns_updateMove _ _ p

@[simp] theorem pending_track (m : Move) (p : Projection) :
    (p.track m).pending = Entries.put m.card m.id p.pending := by
  unfold track
  split
  · rfl
  · split <;> simp

@[simp] theorem nextMove_track (m : Move) (p : Projection) : (p.track m).nextMove = p.nextMove := by
  unfold track
  split
  · rfl
  · exact nextMove_updateMove _ _ p

@[simp] theorem jumbled_track (m : Move) (p : Projection) : (p.track m).jumbled = p.jumbled := by
  unfold track
  split
  · rfl
  · exact jumbled_updateMove _ _ p

theorem id_inherit (m : Move) (p : Projection) : (p.inherit m).id = m.id := by
  unfold inherit
  split <;> rfl

theorem card_inherit (m : Move) (p : Projection) : (p.inherit m).card = m.card := by
  unfold inherit
  split <;> rfl

theorem state_inherit (m : Move) (p : Projection) : (p.inherit m).state = m.state := by
  unfold inherit
  split <;> rfl

theorem toStage_inherit (m : Move) (p : Projection) : (p.inherit m).toStage = m.toStage := by
  unfold inherit
  split <;> rfl

theorem provisional_inherit (m : Move) (p : Projection) :
    (p.inherit m).provisional = m.provisional := by
  unfold inherit
  split <;> rfl

theorem replacedBy_inherit (m : Move) (p : Projection) :
    (p.inherit m).replacedBy = m.replacedBy := by
  unfold inherit
  split <;> rfl

theorem superseded_inherit (m : Move) (p : Projection) :
    (p.inherit m).superseded = m.superseded := by
  unfold inherit
  split <;> rfl

/-- A new move goes back to where a live move of the card would go back to, or to where the card
was. -/
theorem origin_inherit (m : Move) (p : Projection) :
    (p.inherit m).origin = ((p.live? m.card).map Move.origin).getD m.origin := by
  unfold inherit
  cases p.live? m.card <;> rfl

/-- The records after a new move. -/
theorem Ledger.get?_track (h : p.Ledger) (m : Move) (k : Nat) :
    Entries.get? k (p.track m).moves =
      if k = m.id then some (p.inherit m) else (Entries.get? k p.moves).map (p.giveWay m) := by
  unfold track inherit giveWay live?
  cases hp : p.pendingMove m.card with
  | none =>
    by_cases hk : k = m.id
    · simp [hk]
    · simp [hk, Entries.get?_put_of_ne hk]
  | some previous =>
    by_cases hk : k = m.id
    · -- the new move
      cases hs : previous.superseded <;> simp [hk, hs, Option.filter]
    · simp only [hk, if_false, Option.some.injEq]
      -- an older move: the one it replaces, or any other
      rw [Entries.get?_put_of_ne (by cases previous.superseded <;> exact hk), get?_updateMove]
      have hprev := (h.of_pendingMove hp).1
      by_cases hkp : k = previous.id
      · subst hkp
        simp only [hprev, if_true, Option.map_some]
        cases previous.superseded <;> rfl
      · rw [if_neg hkp]
        cases hm : Entries.get? k p.moves with
        | none => rfl
        | some m' =>
          have hne : previous ≠ m' := by
            rintro rfl
            exact hkp (h.numbered hm).1.symm
          simp [hne]

theorem id_giveWay (m m' : Move) (p : Projection) : (p.giveWay m m').id = m'.id := by
  unfold giveWay
  split <;> rfl

theorem card_giveWay (m m' : Move) (p : Projection) : (p.giveWay m m').card = m'.card := by
  unfold giveWay
  split <;> rfl

theorem state_giveWay (m m' : Move) (p : Projection) : (p.giveWay m m').state = m'.state := by
  unfold giveWay
  split <;> rfl

theorem toStage_giveWay (m m' : Move) (p : Projection) :
    (p.giveWay m m').toStage = m'.toStage := by
  unfold giveWay
  split <;> rfl

theorem provisional_giveWay (m m' : Move) (p : Projection) :
    (p.giveWay m m').provisional = m'.provisional := by
  unfold giveWay
  split <;> rfl

theorem superseded_giveWay (m m' : Move) (p : Projection) :
    (p.giveWay m m').superseded = m'.superseded := by
  unfold giveWay
  split <;> rfl

theorem fromMark_giveWay (m m' : Move) (p : Projection) :
    (p.giveWay m m').fromMark = m'.fromMark := by
  unfold giveWay
  split <;> rfl

theorem stray_giveWay (m m' : Move) (p : Projection) : (p.giveWay m m').stray = m'.stray := by
  unfold giveWay
  split <;> rfl

/-- The move that is next to be numbered, before anything happened to it. -/
structure Fresh (p : Projection) (m : Move) : Prop where
  id : m.id = p.nextMove
  state : m.state = .optimistic
  superseded : m.superseded = false
  replacedBy : m.replacedBy = none
  ranked : m.fromMark.number?.isSome
  anchored : m.stray = false

/-- The card of a new move waits for it, every other card for what it waited for. -/
theorem pendingMove_track (h : p.Ledger) {m : Move} (hm : p.Fresh m) (c : String) :
    (p.track m).pendingMove c = if c = m.card then some (p.inherit m) else p.pendingMove c := by
  rw [pendingMove, pending_track]
  by_cases hc : c = m.card
  · subst hc
    rw [Entries.get?_put_self, Option.bind_some, h.get?_track, if_pos rfl, if_pos rfl]
  · rw [Entries.get?_put_of_ne hc, if_neg hc, pendingMove]
    cases hn : Entries.get? c p.pending with
    | none => rfl
    | some n =>
      -- another card waits for an older move, which was not replaced
      obtain ⟨m', hm', hcard, -⟩ := h.waiting hn
      have hlt := (h.numbered hm').2
      have hne : n ≠ m.id := by rw [hm.id]; omega
      rw [Option.bind_some, Option.bind_some, h.get?_track, if_neg hne, hm', Option.map_some,
        giveWay, if_neg]
      intro hp
      exact hc (hcard.symm.trans (h.of_pendingMove hp).2.1)

theorem Ledger.ranked_inherit (h : p.Ledger) {m : Move} (hm : m.fromMark.number?.isSome) :
    (p.inherit m).fromMark.number?.isSome := by
  unfold inherit
  cases hl : p.live? m.card with
  | none => exact hm
  | some l =>
    have hp : p.pendingMove m.card = some l := (Option.filter_eq_some_iff.1 hl).1
    have hl' := h.ranked (h.of_pendingMove hp).1
    exact hl'

theorem Ledger.stray_inherit (h : p.Ledger) {m : Move} (hm : m.stray = false) :
    (p.inherit m).stray = false := by
  unfold inherit
  cases hl : p.live? m.card with
  | none => exact hm
  | some l =>
    have hp : p.pendingMove m.card = some l := (Option.filter_eq_some_iff.1 hl).1
    have hl' := h.anchored (h.of_pendingMove hp).1
    exact hl'

/-- A move that the card of a new move does not wait for stays as it is. -/
theorem giveWay_of_ne {m m₀ : Move} (hp : p.pendingMove m.card ≠ some m₀) : p.giveWay m m₀ = m₀ :=
  if_neg hp

/-- A record after a new move is that of the new move, or one that was there before and may have
given way. -/
theorem Ledger.track_cases (h : p.Ledger) {m : Move} {k : Nat} {m' : Move}
    (hk : Entries.get? k (p.track m).moves = some m') :
    (k = m.id ∧ m' = p.inherit m) ∨
      (k ≠ m.id ∧ ∃ m₀, Entries.get? k p.moves = some m₀ ∧ m' = p.giveWay m m₀) := by
  rw [h.get?_track] at hk
  by_cases hkm : k = m.id
  · rw [if_pos hkm] at hk
    exact .inl ⟨hkm, (Option.some.inj hk).symm⟩
  · rw [if_neg hkm] at hk
    obtain ⟨m₀, hm₀, rfl⟩ := Option.map_eq_some_iff.1 hk
    exact .inr ⟨hkm, m₀, hm₀, rfl⟩

/-- The number of a new move is above all that are in use. -/
theorem Ledger.lt_of_fresh (h : p.Ledger) {m : Move} (hm : p.Fresh m) {k : Nat} {m₀ : Move}
    (hk : Entries.get? k p.moves = some m₀) : k < m.id :=
  hm.id ▸ (h.numbered hk).2

theorem Ledger.get?_track_old (h : p.Ledger) {m : Move} (hm : p.Fresh m) {k : Nat} {m₀ : Move}
    (hk : Entries.get? k p.moves = some m₀) :
    Entries.get? k (p.track m).moves = some (p.giveWay m m₀) := by
  rw [h.get?_track, if_neg (Nat.ne_of_lt (h.lt_of_fresh hm hk)), hk, Option.map_some]

theorem Ledger.get?_track_new (h : p.Ledger) (m : Move) :
    Entries.get? m.id (p.track m).moves = some (p.inherit m) := by
  rw [h.get?_track, if_pos rfl]

/-- Tracking a new move, in the projection in which its number is used up. -/
theorem Ledger.track (h : p.Ledger) {m : Move} (hm : p.Fresh m) :
    Ledger { p.track m with nextMove := p.nextMove + 1 } where
  numbered := by
    intro k m' hk
    rcases h.track_cases hk with ⟨rfl, rfl⟩ | ⟨-, m₀, hm₀, rfl⟩
    · exact ⟨id_inherit m p, by simp [hm.id]⟩
    · obtain ⟨hid, hn⟩ := h.numbered hm₀
      exact ⟨(id_giveWay m m₀ p).trans hid, Nat.lt_succ_of_lt hn⟩
  keys := by
    simp only [pending_track]
    exact Entries.nodup_put h.keys _ _
  waiting := by
    -- the card waits for the new move, all other cards as before
    intro c n hc
    simp only [pending_track] at hc
    by_cases hcm : c = m.card
    · subst hcm
      rw [Entries.get?_put_self, Option.some.injEq] at hc
      subst hc
      exact ⟨_, h.get?_track_new m, card_inherit m p, (state_inherit m p).trans hm.state,
        (replacedBy_inherit m p).trans hm.replacedBy⟩
    · rw [Entries.get?_put_of_ne hcm] at hc
      obtain ⟨m₀, hm₀, hcard, hs, hr⟩ := h.waiting hc
      have hgive : p.giveWay m m₀ = m₀ :=
        giveWay_of_ne fun hp => hcm (hcard.symm.trans (h.of_pendingMove hp).2.1)
      exact ⟨m₀, (h.get?_track_old hm hm₀).trans (congrArg some hgive), hcard, hs, hr⟩
  tracked := by
    -- the move that the card waited for was replaced
    intro k m' hk hs hr
    simp only [pending_track]
    rcases h.track_cases hk with ⟨rfl, rfl⟩ | ⟨-, m₀, hm₀, rfl⟩
    · rw [card_inherit, Entries.get?_put_self]
    · by_cases hp : p.pendingMove m.card = some m₀
      · simp [giveWay, hp] at hr
      · rw [giveWay_of_ne hp] at hs hr ⊢
        have hc := h.tracked hm₀ hs hr
        have hne : m₀.card ≠ m.card := by
          intro heq
          exact hp (heq ▸ h.pendingMove_of_unsettled hm₀ hs hr)
        rw [Entries.get?_put_of_ne hne, hc]
  chained := by
    intro k m' j hk hj
    rcases h.track_cases hk with ⟨rfl, rfl⟩ | ⟨-, m₀, hm₀, rfl⟩
    · rw [replacedBy_inherit, hm.replacedBy] at hj
      simp at hj
    · by_cases hp : p.pendingMove m.card = some m₀
      · simp only [giveWay, hp, if_true, Option.some.injEq] at hj
        subst hj
        refine ⟨h.lt_of_fresh hm hm₀, _, h.get?_track_new m, ?_⟩
        rw [card_inherit, card_giveWay, (h.of_pendingMove hp).2.1]
      · rw [giveWay_of_ne hp] at hj ⊢
        obtain ⟨hkj, m₁, hm₁, hcard⟩ := h.chained hm₀ hj
        exact ⟨hkj, _, h.get?_track_old hm hm₁, (card_giveWay m m₁ p).trans hcard⟩
  ranked := by
    intro k m' hk
    rcases h.track_cases hk with ⟨rfl, rfl⟩ | ⟨-, m₀, hm₀, rfl⟩
    · exact h.ranked_inherit hm.ranked
    · rw [fromMark_giveWay]
      exact h.ranked hm₀
  anchored := by
    intro k m' hk
    rcases h.track_cases hk with ⟨rfl, rfl⟩ | ⟨-, m₀, hm₀, rfl⟩
    · exact h.stray_inherit hm.anchored
    · rw [stray_giveWay]
      exact h.anchored hm₀

/-! ## Chains of replaced moves -/

/-- The end of a chain of replaced moves: as there are fewer and fewer moves with higher numbers,
the search finds a move that nothing replaced. -/
theorem Ledger.latest_spec (h : p.Ledger) (fuel : Nat) {m : Move}
    (hm : Entries.get? m.id p.moves = some m)
    (hf : (p.moves.filter fun e => m.id < e.1).length ≤ fuel) :
    Entries.get? (p.latest fuel m).id p.moves = some (p.latest fuel m) ∧
      (p.latest fuel m).card = m.card ∧ (p.latest fuel m).replacedBy = none := by
  induction fuel generalizing m with
  | zero =>
    refine ⟨hm, rfl, ?_⟩
    cases hr : m.replacedBy with
    | none => exact hr
    | some k =>
      -- no record has a higher number, and so none can have replaced this one
      obtain ⟨hlt, m', hm', -⟩ := h.chained hm hr
      have hmem : (k, m') ∈ p.moves.filter fun e => m.id < e.1 :=
        List.mem_filter.2 ⟨Entries.mem_of_get? hm', by simpa using hlt⟩
      rw [List.length_eq_zero_iff.1 (Nat.le_zero.1 hf)] at hmem
      simp at hmem
  | succ fuel ih =>
    cases hr : m.replacedBy with
    | none => simp [latest, hr, hm]
    | some k =>
      obtain ⟨hlt, m', hm', hcard⟩ := h.chained hm hr
      obtain ⟨rfl, -⟩ := h.numbered hm'
      have hstep : p.latest (fuel + 1) m = p.latest fuel m' := by simp [latest, hr, hm']
      -- the next record of the chain has fewer records above it
      have hless : (p.moves.filter fun e => m'.id < e.1).length <
          (p.moves.filter fun e => m.id < e.1).length := by
        have hsub : (p.moves.filter fun e => m'.id < e.1) =
            (p.moves.filter fun e => m.id < e.1).filter fun e => m'.id < e.1 := by
          rw [List.filter_filter]
          refine List.filter_congr fun e _ => ?_
          rw [Bool.eq_iff_iff, Bool.and_eq_true, decide_eq_true_eq, decide_eq_true_eq]
          omega
        rw [hsub]
        refine List.length_filter_lt_length_iff_exists.2 ?_
        exact ⟨(m'.id, m'), List.mem_filter.2 ⟨Entries.mem_of_get? hm', by simpa using hlt⟩,
          by simp⟩
      obtain ⟨hget, hc, hn⟩ := ih hm' (by omega)
      rw [hstep]
      exact ⟨hget, hc.trans hcard, hn⟩

end Projection

end Kanban
