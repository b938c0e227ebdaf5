import Kanban.Proofs.Projection.Acts
import Kanban.Proofs.Projection.Hearing
import Mathlib.Data.List.Induction
import Mathlib.Logic.Relation

/-!
# Kanban.Proofs.Projection.Bookkeeping — the records of moves over whole runs

Moves are settled by their outcome or by an event that brings their card where they were to bring
it, and a later move of the same card takes the place of an unsettled one. Whatever is done with a
client's view, and whatever boards are read, the move that a card waits for is the one unsettled
move of the card that nothing replaced, a settled move stays as it is, and chains of replaced moves
lead up to the newest.

* `Booked` — what an operation does to records.
* `Books`, `entered_act` — the invariant and one act.
* `Replaces` — chains of replaced moves.
* `books_exact` — every run.
-/

namespace Kanban

namespace Projection

variable {p q r : Projection}

/-- The records hang together afterwards, none is lost, and what was settled is as it was. -/
structure Booked (p q : Projection) : Prop where
  ledger : q.Ledger
  kept : ∀ {n m}, Entries.get? n p.moves = some m →
    ∃ m', Entries.get? n q.moves = some m' ∧ m'.card = m.card
  final : ∀ {n m}, Entries.get? n p.moves = some m → m.state ≠ .optimistic →
    Entries.get? n q.moves = some m

theorem Ledger.booked (h : p.Ledger) : Booked p p := ⟨h, fun hm => ⟨_, hm, rfl⟩, fun hm _ => hm⟩

theorem Booked.trans (h : Booked p q) (h' : Booked q r) : Booked p r where
  ledger := h'.ledger
  kept := by
    intro n m hm
    obtain ⟨m', hm', hcard⟩ := h.kept hm
    obtain ⟨m'', hm'', hcard'⟩ := h'.kept hm'
    exact ⟨m'', hm'', hcard'.trans hcard⟩
  final := fun hm hs => h'.final (h.final hm hs) hs

theorem Booked.unrecorded (h : Booked p q) (hu : Unrecorded q r) : Booked p r where
  ledger := h.ledger.congr hu.moves hu.pending hu.nextMove
  kept := fun hm => hu.moves ▸ h.kept hm
  final := fun hm hs => hu.moves ▸ h.final hm hs

/-- Changing records of unsettled moves only. -/
theorem booked_revise (h : p.Ledger) {g : Move → Move} (hr : Revised g p q)
    (hmark : ∀ m, m.fromMark.number?.isSome → (g m).fromMark.number?.isSome)
    (hg : ∀ {m}, Entries.get? m.id p.moves = some m → m.state ≠ .optimistic → g m = m) :
    Booked p q where
  ledger := h.revise hr hmark
  kept := fun hm => ⟨_, by rw [hr.moves, hm, Option.map_some], hr.mild.card _⟩
  final := by
    intro n m hm hs
    rw [hr.moves, hm, Option.map_some, hg (h.numbered_id hm) hs]

/-- Changing the record of one unsettled move. -/
theorem booked_updateMove (h : p.Ledger) {m : Move} (hm : Entries.get? m.id p.moves = some m)
    (ho : m.state = .optimistic) {f : Move → Move} (hf : Mild f)
    (hs : ∀ m, (f m).state = m.state)
    (hmark : ∀ m, m.fromMark.number?.isSome → (f m).fromMark.number?.isSome) :
    Booked p (p.updateMove m.id f) := by
  refine booked_revise h (h.revised_updateMove m.id hf hs) ?_ ?_
  · intro m' hm'
    split
    · exact hmark m' hm'
    · exact hm'
  · intro m' hm' hs'
    refine if_neg fun hid => ?_
    rw [hid, hm] at hm'
    obtain rfl := Option.some.inj hm'
    exact hs' ho

/-- Settling an unsettled move. -/
theorem booked_settle (h : p.Ledger) {m : Move} (hm : Entries.get? m.id p.moves = some m)
    (ho : m.state = .optimistic) {f : Move → Move} (hf : Mild f) (hs : (f m).state ≠ .optimistic)
    (hmark : (f m).fromMark = m.fromMark) :
    Booked p ((p.updateMove m.id f).clearPending m) where
  ledger := h.settle hm hf hs hmark
  kept := by
    intro n m' hm'
    rw [get?_moves_settle, hm']
    split
    · exact ⟨f m', rfl, hf.card m'⟩
    · exact ⟨m', rfl, rfl⟩
  final := by
    intro n m' hm' hs'
    rw [get?_moves_settle, if_neg, hm']
    -- the move that is settled now was not settled before
    rintro rfl
    rw [hm] at hm'
    obtain rfl := Option.some.inj hm'
    exact hs' ho

theorem booked_supersede (h : p.Ledger) (test : Move → Bool) : Booked p (p.supersede test) := by
  refine booked_revise h (h.revised_supersede test) ?_ ?_
  · intro m hm
    split <;> exact hm
  · intro m hm hs
    refine if_neg fun hw => ?_
    -- only unsettled moves wait
    obtain ⟨c, hc⟩ := (Entries.mem_values_iff h.keys).1 hw
    obtain ⟨m', hm', -, ho, -⟩ := h.waiting hc
    obtain rfl := Option.some.inj (hm.symm.trans hm')
    exact hs ho

/-- Recording a new move, after the columns were changed. -/
theorem booked_track (h : p.Ledger) {m : Move} (hm : p.Fresh m) (hmoves : q.moves = p.moves)
    (hpend : q.pending = p.pending) (hnext : q.nextMove = p.nextMove + 1) :
    Booked p (q.track m) where
  ledger := by
    refine (h.track hm).congr (moves_track_congr hmoves hpend m) ?_ ?_
    · rw [pending_track, hpend, ← pending_track]
    · rw [nextMove_track, hnext]
  kept := by
    intro n m' hm'
    have hne : n ≠ m.id := hm.id ▸ Nat.ne_of_lt (h.numbered hm').2
    rw [moves_track_congr hmoves hpend, h.get?_track, if_neg hne, hm']
    exact ⟨_, rfl, card_giveWay m m' p⟩
  final := by
    intro n m' hm' hs
    have hne : n ≠ m.id := hm.id ▸ Nat.ne_of_lt (h.numbered hm').2
    -- the move that gives way is one that waits
    have hgive : p.giveWay m m' = m' := if_neg fun hp => hs (h.of_pendingMove hp).2.2.1
    rw [moves_track_congr hmoves hpend, h.get?_track, if_neg hne, hm', Option.map_some, hgive]

/-! ## Positions stay numbers -/

theorem Numeric.place (h : p.Numeric) (card : String) (stage : Key) {x : Mark}
    (hx : x.number?.isSome) : (p.place card stage x).Numeric := by
  unfold Projection.place
  split
  · exact h
  · split
    · exact h
    · split
      · refine h.resort stage fun u hu => ?_
        rcases List.mem_or_eq_of_mem_set hu with hu | rfl
        · exact h.column stage u hu
        · exact hx
      · exact (h.takeOut _).putIn stage _ hx

theorem Numeric.restore (h : p.Numeric) {m : Move} (hx : m.fromMark.number?.isSome) :
    (p.restore m).Numeric := by
  unfold Projection.restore
  split
  · exact h
  · split
    · exact h
    · dsimp only [withdraw]
      split
      · exact Numeric.putIn (Each.drop (h.takeOut _) _) m.fromStage _ hx
      · exact (h.takeOut _).putIn m.fromStage _ hx

theorem Numeric.lose (h : p.Numeric) (card : String) : (p.lose card).Numeric := by
  unfold Projection.lose
  split
  · exact h
  · exact h.takeOut _

theorem unrecorded_lose (card : String) (p : Projection) :
    Unrecorded p (p.lose card) ∧ (p.lose card).jumbled = p.jumbled := by
  unfold lose
  split <;> exact ⟨⟨rfl, rfl, rfl⟩, rfl⟩

theorem Numeric.fold (h : p.Numeric) (stage fallback : Key) :
    (p.fold stage fallback).2.Numeric := by
  obtain ⟨q, -, hc, -, hq⟩ := fold_eq stage fallback p
  have hqn : (q.supersede (leaves stage)).Numeric :=
    Numeric.congr (Each.drop h stage) ((columns_supersede _ q).trans hc)
  rw [hq]
  split
  · exact hqn
  · refine hqn.resort fallback fun t ht => ?_
    rcases List.mem_append.1 ht with ht | ht
    · exact hqn.column fallback t ht
    · obtain ⟨u, hu, rfl⟩ := List.mem_map.1 ht
      exact h.column stage u hu

theorem numeric_refresh (cs : Entries Key (List Card)) (p : Projection) :
    (p.refresh cs).Numeric := by
  have hempty := (empty_columns (p.activeStages.map (·.key))).2
  refine each_foldl_put (P := fun ts => ∀ t ∈ ts, t.position.number?.isSome)
    (fun cards => (displayOrder below cards).map Tile.ofCard) ?_ ?_
  · intro e _ t ht
    obtain ⟨c, -, rfl⟩ := List.mem_map.1 ht
    rfl
  · intro e he
    rw [hempty e (by simpa only [List.map_map, Function.comp_def] using he)]
    simp

/-! ## One act -/

/-- The books of a client: its records hang together, and every card is at a position that a move can
take it back to. -/
structure Books (p : Projection) : Prop where
  ledger : p.Ledger
  numeric : p.Numeric
  calm : p.jumbled = false

/-- What an act does to the books. -/
structure Entered (p q : Projection) : Prop extends Booked p q where
  numeric : q.Numeric
  calm : q.jumbled = false

theorem Entered.books (h : Entered p q) : q.Books := ⟨h.ledger, h.numeric, h.calm⟩

theorem entered_calmed (h : Booked p q) (hn : q.Numeric) : Entered p q.calmed :=
  ⟨h.unrecorded ⟨rfl, rfl, rfl⟩, hn.congr rfl, rfl⟩

theorem entered_begin (h : p.Books) (now : Float) (card target : String) (d : Directive)
    (a : Allocator) : Entered p (p.act (.begin now card target d a)) := by
  have hsame : Entered p p := ⟨h.ledger.booked, h.numeric, h.calm⟩
  change Entered p (p.begin now card (.text target) d a).2.1
  cases hl : p.locate card with
  | none => simpa only [begin, hl] using hsame
  | some loc =>
    obtain ⟨k, i⟩ := loc
    cases ht : p.tileAt (k, i) with
    | none => simpa only [begin, hl, ht] using hsame
    | some t =>
      obtain ⟨r, j, x, b, hr, -, -, hb⟩ :=
        begin_eq hl ht (Value.isName_text target) ((h.numeric.takeOut _).column _) now d a
      have hrn : r.Numeric :=
        Numeric.congr (Each.open (h.numeric.takeOut (k, i)) hereditary_numeric (.text target))
          (by rw [hr])
      have hrank : t.position.number?.isSome :=
        h.numeric.column k t (List.mem_of_getElem? ht)
      rw [hb]
      refine ⟨booked_track h.ledger ⟨rfl, rfl, rfl, rfl, hrank, rfl⟩ ?_ ?_ ?_, ?_, ?_⟩
      · rw [hr]; rfl
      · rw [hr]; rfl
      · rw [hr]; rfl
      · exact (hrn.putIn (.text target) j rfl).congr (columns_track _ _)
      · exact (jumbled_track _ _).trans (jumbled_putIn (hrn.column _) rfl)

theorem booked_rollback (h : p.Books) (n : Nat) (error : Option Reason) :
    Booked p (p.rollback n error) ∧ (p.rollback n error).Numeric := by
  cases hm : Entries.get? n p.moves with
  | none =>
    rw [rollback, hm]
    exact ⟨h.ledger.booked, h.numeric⟩
  | some m =>
    by_cases ho : m.state = .optimistic
    · obtain ⟨q, hu, hc, -, hq⟩ := rollback_eq h.ledger hm ho error
      have hset := booked_settle h.ledger (h.ledger.numbered_id hm) ho
        (mild_failed (error.map (·.failure))) (by simp [failed]) rfl
      have hqb := hset.unrecorded hu
      have hqn : q.Numeric := h.numeric.congr hc
      rw [hq]
      split
      · exact ⟨hqb, hqn⟩
      · exact ⟨hqb.unrecorded (unrecorded_restore m q), hqn.restore (h.ledger.ranked hm)⟩
    · rw [rollback_settled hm ho]
      exact ⟨h.ledger.booked, h.numeric⟩

/-- A success of a move that was replaced: it is settled, and the live move at the end of the chain
goes back to another place. -/
theorem booked_rebase (h : p.Ledger) {m : Move} (hm : Entries.get? m.id p.moves = some m)
    (ho : m.state = .optimistic) (hr : m.replacedBy.isSome) (stage : Key) {x : Mark}
    (hx : x.number?.isSome) :
    Booked p (((p.updateMove m.id (succeeded x)).clearPending m).rebase m stage x) := by
  have hset := booked_settle h hm ho (mild_succeeded x) (by simp [succeeded]) rfl
  rw [rebase_eq hr, heir?_settle h hm]
  cases hh : p.heir? m with
  | none => exact hset
  | some l =>
    obtain ⟨hl, -, hlo, hlr⟩ := h.of_pendingMove (live?_eq_some_iff.1 (h.heir_spec hm hh).2).1
    -- it is another move, as that one was not replaced
    have hne : l.id ≠ m.id := by
      intro hid
      rw [hid, hm] at hl
      obtain rfl := Option.some.inj hl
      simp [hlr] at hr
    have hl' : Entries.get? l.id ((p.updateMove m.id (succeeded x)).clearPending m).moves =
        some l := by
      rw [get?_moves_settle, if_neg hne, hl]
    exact hset.trans (booked_updateMove hset.ledger hl' hlo (mild_redirected _ _ _) (fun _ => rfl)
      fun _ _ => hx)

theorem booked_confirm (h : p.Books) (n : Nat) (stage : Option Key) {x : Mark}
    (hx : x.number?.isSome) :
    Booked p (p.confirm n stage (some x)) ∧ (p.confirm n stage (some x)).Numeric := by
  cases hm : Entries.get? n p.moves with
  | none =>
    rw [confirm, hm]
    exact ⟨h.ledger.booked, h.numeric⟩
  | some m =>
    by_cases ho : m.state = .optimistic
    · have hid := h.ledger.numbered_id hm
      obtain ⟨q, rfl, hq⟩ := confirm_eq h.ledger hm ho stage x
      have hset := booked_settle h.ledger hid ho (mild_succeeded x) (by simp [succeeded]) rfl
      have hqn : ((p.updateMove m.id (succeeded x)).clearPending m).Numeric :=
        h.numeric.congr (by simp)
      rw [hq]
      split
      · rename_i hr
        refine ⟨booked_rebase h.ledger hid ho hr _ hx, hqn.congr ?_⟩
        rw [rebase_eq hr]
        cases heir? m _ <;> simp
      · split
        · exact ⟨hset, hqn⟩
        · exact ⟨hset.unrecorded (unrecorded_place _ _ _ _), hqn.place _ _ hx⟩
    · rw [confirm_settled hm ho]
      exact ⟨h.ledger.booked, h.numeric⟩

theorem Closes.booked {n : Nat} (h : Closes n p q) (hp : p.Books) : Booked p q ∧ q.Numeric := by
  refine ⟨?_, hp.numeric.congr h.columns⟩
  cases h with
  | idle => exact hp.ledger.booked
  | done hm ho hid hf hs hmark => exact booked_settle hp.ledger (hid ▸ hm) ho hf hs hmark

/-- Hearing of a card settles or overrides the move that it waits for. -/
theorem booked_hear (h : p.Ledger) (card : String) (stage : Key) (x : Float) :
    Booked p (p.hear card stage (some x)) ∧
      (p.hear card stage (some x)).columns = p.columns ∧
      (p.hear card stage (some x)).jumbled = p.jumbled := by
  unfold hear
  cases hp : p.pendingMove card with
  | none => exact ⟨h.booked, rfl, rfl⟩
  | some m =>
    obtain ⟨hm, -, ho, -⟩ := h.of_pendingMove hp
    simp only [ho, ne_eq, not_true, if_false]
    split
    · refine ⟨?_, by simp, by simp⟩
      exact booked_settle h hm ho (mild_succeeded (.real x)) (by simp) rfl
    · refine ⟨?_, by simp, by simp⟩
      exact booked_updateMove h hm ho mild_overridden (fun _ => rfl) fun _ hm' => hm'

theorem booked_fold (h : p.Ledger) (stage fallback : Key) :
    Booked p (p.fold stage fallback).2 := by
  obtain ⟨q, hq, -, -, hfold⟩ := fold_eq stage fallback p
  have hqb := h.booked.unrecorded hq
  have hover := hqb.trans (booked_supersede hqb.ledger (leaves stage))
  rw [hfold]
  split
  · exact hover
  · exact hover.unrecorded ⟨rfl, rfl, rfl⟩

theorem entered_hear (h : p.Books) {e : Value} (he : Placed e) :
    Entered p (p.act (.hear e)) := by
  have key := heard e p
  generalize p.act (.hear e) = q at key
  cases key with
  | ignored => exact ⟨h.ledger.booked, h.numeric, h.calm⟩
  | unplaced card stage position r hr hm hpos f hf =>
    obtain ⟨x, hx⟩ := he r position hr hm hpos
    simp [hx] at hf
  | lost card stage x r hr hs hn =>
    -- the card is gone for good, but its records are not
    obtain ⟨hb, hc, hj⟩ := booked_hear h.ledger card stage x
    obtain ⟨hu, hlc⟩ := unrecorded_lose card (p.hear card stage (some x))
    exact ⟨hb.unrecorded hu, (h.numeric.congr hc).lose card, hlc.trans (hj.trans h.calm)⟩
  | emptied stage fallback r hr hs hn =>
    refine ⟨(booked_fold h.ledger stage fallback).unrecorded ⟨rfl, rfl, rfl⟩, ?_, rfl⟩
    exact Numeric.congr (Each.drop (h.numeric.fold stage fallback) fallback) rfl
  | moved card stage x =>
    obtain ⟨hb, hc, -⟩ := booked_hear h.ledger card stage x
    exact entered_calmed (hb.unrecorded (unrecorded_place card stage _ _))
      ((h.numeric.congr hc).place card stage rfl)
  | folded stage fallback =>
    exact entered_calmed (booked_fold h.ledger stage fallback) (h.numeric.fold stage fallback)

/-- Whatever is done, the books are kept and settled moves stay as they are. -/
theorem entered_act (h : p.Books) (a : Act) (ha : ∀ e, a = .hear e → Placed e) :
    Entered p (p.act a) := by
  cases a with
  | begin now card target d a => exact entered_begin h now card target d a
  | confirm n stage position =>
    rw [act_confirm]
    cases position with
    | none =>
      obtain ⟨hb, hn⟩ := (closes_confirm h.ledger n (namedStage stage)).booked h
      exact entered_calmed hb hn
    | some x =>
      obtain ⟨hb, hn⟩ := booked_confirm h n (namedStage stage) (x := .real x) rfl
      exact entered_calmed hb hn
  | rollback n error =>
    obtain ⟨reason, -, -, hq⟩ | ⟨fault, -, hq⟩ := act_rollback n error p
    · obtain ⟨hb, hn⟩ := booked_rollback h n reason
      rw [hq]
      exact entered_calmed hb hn
    · have hcloses := closes_giveUp h.ledger n error
      obtain ⟨hb, hn⟩ := hcloses.booked h
      rw [hq]
      exact ⟨hb, hn, hcloses.jumbled.trans h.calm⟩
  | hear e => exact entered_hear h (ha e rfl)
  | refresh payload =>
    rcases refreshed payload p with ⟨board, stages, hq⟩ | ⟨board, stages, cs, -, hq⟩
    · rw [hq]
      exact ⟨h.ledger.booked.unrecorded ⟨rfl, rfl, rfl⟩, h.numeric.congr rfl, h.calm⟩
    · -- every move that waits is overridden, and all columns are those that were read
      have hsame : Booked p { p with board, stages } :=
        h.ledger.booked.unrecorded ⟨rfl, rfl, rfl⟩
      have hover := hsame.trans (booked_supersede hsame.ledger fun _ => true)
      rw [hq]
      exact ⟨hover.unrecorded ⟨rfl, rfl, rfl⟩, numeric_refresh cs _,
        (jumbled_supersede _ _).trans h.calm⟩

/-! ## Runs -/

/-- Every event of a moved card tells a position. -/
def WellPlaced (acts : List Act) : Prop := ∀ e, .hear e ∈ acts → Placed e

theorem books_new (board : Key) : Books { board } := ⟨ledger_new board, by simp [Numeric, Each], rfl⟩

/-- What some acts do to the books. -/
theorem entered_run (h : p.Books) {acts : List Act} (ha : WellPlaced acts) :
    Entered p (p.run acts) := by
  induction acts using List.reverseRecOn with
  | nil => exact ⟨h.ledger.booked, h.numeric, h.calm⟩
  | append_singleton acts a ih =>
    have hbefore := ih fun e he => ha e (List.mem_append_left _ he)
    have hlast := entered_act hbefore.books a fun e he => ha e (by simp [he])
    rw [run_concat]
    exact ⟨hbefore.toBooked.trans hlast.toBooked, hlast.numeric, hlast.calm⟩

/-! ## Chains of replaced moves -/

/-- A move was replaced by another. -/
def Replaces (p : Projection) (m m' : Move) : Prop :=
  ∃ k, m.replacedBy = some k ∧ Entries.get? k p.moves = some m'

/-- A move is replaced by one move only. -/
theorem replaces_unique {m m₁ m₂ : Move} (h₁ : p.Replaces m m₁) (h₂ : p.Replaces m m₂) :
    m₁ = m₂ := by
  obtain ⟨k₁, hk₁, hm₁⟩ := h₁
  obtain ⟨k₂, hk₂, hm₂⟩ := h₂
  obtain rfl := Option.some.inj (hk₁.symm.trans hk₂)
  exact Option.some.inj (hm₁.symm.trans hm₂)

/-- Going on from move to move follows the chain. -/
theorem chain_latest (p : Projection) (fuel : Nat) (m : Move) :
    Relation.ReflTransGen p.Replaces m (p.latest fuel m) := by
  induction fuel generalizing m with
  | zero => exact .refl
  | succ fuel ih =>
    unfold latest
    split
    · rename_i later hl
      obtain ⟨k, hk, hm⟩ := Option.bind_eq_some_iff.1 hl
      exact .head ⟨k, hk, hm⟩ (ih later)
    · exact .refl

/-- Numbers grow along a chain. -/
theorem Ledger.le_of_chain (h : p.Ledger) {m l : Move} (hm : Entries.get? m.id p.moves = some m)
    (hc : Relation.ReflTransGen p.Replaces m l) :
    m.id ≤ l.id ∧ Entries.get? l.id p.moves = some l := by
  induction hc with
  | refl => exact ⟨Nat.le_refl _, hm⟩
  | tail _ hstep ih =>
    obtain ⟨k, hk, hl⟩ := hstep
    obtain ⟨hle, hget⟩ := ih
    obtain ⟨hlt, -⟩ := h.chained hget hk
    obtain ⟨rfl, -⟩ := h.numbered hl
    exact ⟨hle.trans hlt.le, hl⟩

/-- The chain of a move ends in the newest of the moves that replaced one another. -/
theorem Ledger.newest (h : p.Ledger) {m : Move} (hm : Entries.get? m.id p.moves = some m) :
    Relation.ReflTransGen p.Replaces m (p.latest p.moves.length m) ∧
      (p.latest p.moves.length m).replacedBy = none ∧
      ∀ l, Relation.ReflTransGen p.Replaces m l → l.id ≤ (p.latest p.moves.length m).id := by
  obtain ⟨-, -, hend⟩ := h.latest_spec p.moves.length hm (List.length_filter_le _ _)
  have hchain := chain_latest p p.moves.length m
  refine ⟨hchain, hend, fun l hl => ?_⟩
  -- of two moves of one chain one leads to the other, and the last leads nowhere
  have hunique : Relator.RightUnique p.Replaces := fun _ _ _ h₁ h₂ => replaces_unique h₁ h₂
  rcases Relation.ReflTransGen.total_of_right_unique hunique hl hchain with hto | hfrom
  · exact (h.le_of_chain (h.le_of_chain hm hl).2 hto).1
  · rcases Relation.ReflTransGen.cases_head hfrom with heq | ⟨l', ⟨k, hk, -⟩, -⟩
    · rw [heq]
    · simp [hend] at hk

/-! ## The books are exact -/

/-- Exact books. -/
structure Exact (p : Projection) : Prop where
  /-- The move that a card waits for is its one unsettled move that was not replaced. -/
  waiting : ∀ card m, p.pendingMove card = some m ↔
    Entries.get? m.id p.moves = some m ∧ m.card = card ∧ m.state = .optimistic ∧ m.replacedBy = none
  /-- Learning the outcome of a settled move again changes nothing. -/
  once : ∀ n m, Entries.get? n p.moves = some m → m.state ≠ .optimistic →
    (∀ stage position, p.act (.confirm n stage position) = p) ∧
      ∀ error, p.act (.rollback n error) = p
  /-- A move is replaced by a newer move of the same card only. -/
  replaced : ∀ n m k, Entries.get? n p.moves = some m → m.replacedBy = some k →
    n < k ∧ ∃ m', Entries.get? k p.moves = some m' ∧ m'.card = m.card
  /-- Going on from a move to the one that replaced it ends in the newest of the chain. -/
  newest : ∀ n m, Entries.get? n p.moves = some m →
    Relation.ReflTransGen p.Replaces m (p.latest p.moves.length m) ∧
      (p.latest p.moves.length m).replacedBy = none ∧
      ∀ l, Relation.ReflTransGen p.Replaces m l → l.id ≤ (p.latest p.moves.length m).id

theorem Books.exact (h : p.Books) : p.Exact where
  waiting := by
    intro card m
    constructor
    · exact h.ledger.of_pendingMove
    · rintro ⟨hm, rfl, ho, hr⟩
      exact h.ledger.pendingMove_of_unsettled hm ho hr
  once := fun _ _ hm hs => act_outcome_settled h.calm hm hs
  replaced := fun _ _ _ hm hk => h.ledger.chained hm hk
  newest := fun _ _ hm => h.ledger.newest (h.ledger.numbered_id hm)

/-- Whatever is done with a client's view, its books are exact, and once a move is settled its record
never changes. -/
theorem books_exact (board : Key) (acts : List Act) (h : WellPlaced acts) :
    (run { board } acts).Exact ∧
      ∀ before after, acts = before ++ after → ∀ n m,
        Entries.get? n (run { board } before).moves = some m → m.state ≠ .optimistic →
          Entries.get? n (run { board } acts).moves = some m := by
  refine ⟨(entered_run (books_new board) h).books.exact, ?_⟩
  rintro before after rfl n m hm hs
  have hbefore : Entered { board } (run { board } before) :=
    entered_run (books_new board) fun e he => h e (List.mem_append_left _ he)
  have hafter : Entered (run { board } before) (run (run { board } before) after) :=
    entered_run hbefore.books fun e he => h e (List.mem_append_right _ he)
  rw [run_append]
  exact hafter.final hm hs

/-- A board with one card. -/
def oneCard : Value :=
  .object [("stages", .list [.object [("key", "new")], .object [("key", "open")]]),
    ("cards_by_stage", .object [("new", .list [
      .object [("card_id", "1"), ("position", .real 1.0)]])])]

/-- A board with one card, read once. -/
def oneRead : List Act := [.refresh oneCard]

theorem wellPlaced_oneRead : WellPlaced oneRead := by
  intro e he
  simp [oneRead] at he

/-- A board with cards in two stages, two of them at one position. -/
def fiveCards : Value :=
  .object [("stages", .list [.object [("key", "new")], .object [("key", "open")]]),
    ("cards_by_stage", .object [
      ("new", .list [
        .object [("card_id", "1"), ("position", .real 1.0)],
        .object [("card_id", "2"), ("position", .real 2.0)],
        .object [("card_id", "3"), ("position", .real 2.0)]]),
      ("open", .list [
        .object [("card_id", "4"), ("position", .real 4.0)],
        .object [("card_id", "5"), ("position", .real 6.0)]])])]

theorem readColumns_fiveCards (board : Key) : readColumns board fiveCards = .ok [
    (.text "new", [{ id := "1", board, stage := "new", position := 1.0 },
      { id := "2", board, stage := "new", position := 2.0 },
      { id := "3", board, stage := "new", position := 2.0 }]),
    (.text "open", [{ id := "4", board, stage := "open", position := 4.0 },
      { id := "5", board, stage := "open", position := 6.0 }])] := rfl

/-- That board, read once. -/
def fiveRead : List Act := [.refresh fiveCards]

theorem wellPlaced_fiveRead : WellPlaced fiveRead := by
  intro e he
  simp [fiveRead] at he

/-- A move is replaced by another, which an event confirms; then both outcomes are learned. -/
def overtaken : List Act :=
  [.refresh oneCard, .begin 0.0 "1" "open" { absolute := some 5.0 } {},
    .begin 0.0 "1" "new" { absolute := some 6.0 } {},
    .hear (.object [("event", "card_moved"), ("card_id", "1"), ("stage_key", "new"),
      ("position", .real 6.0)]),
    .confirm 1 none (some 5.0), .rollback 2 none]

theorem wellPlaced_overtaken : WellPlaced overtaken := by
  intro e he r v hr _ hv
  simp only [overtaken, List.mem_cons, reduceCtorEq, Act.hear.injEq, List.not_mem_nil, or_false,
    false_or] at he
  subst he
  obtain rfl := Except.ok.inj hr
  obtain rfl := Option.some.inj hv
  exact ⟨_, rfl⟩

/-- The books after that run. -/
theorem books_exact_overtaken :
    (run { board := "sales" } overtaken).Exact ∧
      ∀ before after, overtaken = before ++ after → ∀ n m,
        Entries.get? n (run { board := "sales" } before).moves = some m → m.state ≠ .optimistic →
          Entries.get? n (run { board := "sales" } overtaken).moves = some m :=
  books_exact "sales" overtaken wellPlaced_overtaken

/-- Both moves are settled then, and the first was replaced by the second. -/
example : (run { board := "sales" } overtaken).moves.map
    (fun e => (e.1, e.2.state, e.2.replacedBy)) =
      [(1, .confirmed, some 2), (2, .confirmed, none)] := by decide

end Projection

end Kanban
