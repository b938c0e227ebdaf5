import Kanban.Proofs.Projection.Regular

/-!
# Kanban.Proofs.Projection.Overlaps — local moves that overlap

A card may be moved again before the outcome of its last move is known, and again, and the outcomes may
be learned in any order. The moves form a chain in which each was replaced by the next; only the newest
goes back anywhere, and a success of an older one sets where it goes back to. After the newest has
failed there is nothing that a success could set any more.

* `Turn`, `Overlapping` — histories of moves of one card that overlap.
* `Overlap` — what is kept from turn to turn.
* `rests_iff` — where the card is when all outcomes are known.
-/

namespace Kanban

namespace Projection

variable {p : Projection} {card : String}

/-- What happens while a card is moved over and over: a move is started, or the outcome of a move is
learned, which is told by how many moves were started before it. A failure has words. -/
inductive Turn where
  | start (now : Float) (target : String) (d : Directive) (a : Allocator)
  | success (i : Nat) (stage : Option String) (x : Float)
  | failure (i : Nat) (error : Option Reason)

namespace Turn

/-- The stage that a move is started to. -/
def target? : Turn → Option String
  | start _ target _ _ => some target
  | _ => none

/-- The move that the outcome is of. -/
def outcome? : Turn → Option Nat
  | start _ _ _ _ => none
  | success i _ _ => some i
  | failure i _ => some i

/-- The move that has succeeded. -/
def success? : Turn → Option Nat
  | success i _ _ => some i
  | _ => none

/-- Whether a move has failed. -/
def fails (i : Nat) : Turn → Bool
  | failure j _ => i = j
  | _ => false

/-- Where a success has committed the card: at the stage that the answer names, or at the target. -/
def landing? (targets : List String) : Turn → Option Spot
  | success i stage x =>
    some ((namedStage stage).getD (.text (targets[i]?.getD "")), .real x)
  | _ => none

/-- A turn as an act, if the first of the moves has the given number. -/
def toAct (card : String) (first : Nat) : Turn → Act
  | start now target d a => .begin now card target d a
  | success i stage x => .confirm (first + i) stage (some x)
  | failure i error => .rollback (first + i) (error.map (·.failure))

end Turn

/-- The targets of the moves that were started. -/
def targets (ts : List Turn) : List String := ts.filterMap Turn.target?

/-- The moves of which the outcome is known. -/
def outcomes (ts : List Turn) : List Nat := ts.filterMap Turn.outcome?

/-- The moves that have succeeded. -/
def successes (ts : List Turn) : List Nat := ts.filterMap Turn.success?

/-- Where the successes have committed the card. -/
def landings (ts : List Turn) : List Spot := ts.filterMap (Turn.landing? (targets ts))

/-- The turns until the newest move fails. -/
def heeded (ts : List Turn) : List Turn :=
  ts.takeWhile fun t => !t.fails ((targets ts).length - 1)

/-- Moves that overlap: each is started before the outcome of the one before it is known, each outcome
is learned once, and successes are learned in the order of the moves. -/
inductive Overlapping : List Turn → Prop where
  | nil : Overlapping []
  | start {ts : List Turn} (h : Overlapping ts)
      (hopen : ∀ i, i + 1 = (targets ts).length → i ∉ outcomes ts) (now : Float) (target : String)
      (d : Directive) (a : Allocator) : Overlapping (ts ++ [.start now target d a])
  | success {ts : List Turn} (h : Overlapping ts) {i : Nat} (hi : i < (targets ts).length)
      (honce : i ∉ outcomes ts) (horder : ∀ j ∈ successes ts, j < i) (stage : Option String)
      (x : Float) : Overlapping (ts ++ [.success i stage x])
  | failure {ts : List Turn} (h : Overlapping ts) {i : Nat} (hi : i < (targets ts).length)
      (honce : i ∉ outcomes ts) (error : Option Reason) : Overlapping (ts ++ [.failure i error])

/-! ## Histories -/

@[simp] theorem targets_concat (ts : List Turn) (t : Turn) :
    targets (ts ++ [t]) = targets ts ++ t.target?.toList := by
  cases t <;> simp [targets, Turn.target?]

@[simp] theorem outcomes_concat (ts : List Turn) (t : Turn) :
    outcomes (ts ++ [t]) = outcomes ts ++ t.outcome?.toList := by
  cases t <;> simp [outcomes, Turn.outcome?]

theorem mem_outcomes_of_fails {ts : List Turn} {t : Turn} (ht : t ∈ ts) {i : Nat}
    (hf : t.fails i = true) : i ∈ outcomes ts := by
  cases t with
  | start => simp [Turn.fails] at hf
  | success => simp [Turn.fails] at hf
  | failure j error =>
    obtain rfl : i = j := by simpa [Turn.fails] using hf
    exact List.mem_filterMap.2 ⟨_, ht, rfl⟩

/-- An outcome is a success or a failure. -/
theorem fails_of_mem_outcomes {ts : List Turn} {i : Nat} (hi : i ∈ outcomes ts)
    (hs : i ∉ successes ts) : ∃ t ∈ ts, t.fails i = true := by
  obtain ⟨t, ht, hti⟩ := List.mem_filterMap.1 hi
  cases t with
  | start => simp [Turn.outcome?] at hti
  | success j stage x =>
    obtain rfl := Option.some.inj hti
    have hmem : j ∈ successes ts := List.mem_filterMap.2 ⟨_, ht, rfl⟩
    exact absurd hmem hs
  | failure j error =>
    obtain rfl := Option.some.inj hti
    exact ⟨_, ht, by simp [Turn.fails]⟩

/-- Only moves that were started have outcomes. -/
theorem Overlapping.lt_of_mem {ts : List Turn} (h : Overlapping ts) :
    ∀ i ∈ outcomes ts, i < (targets ts).length := by
  induction h with
  | nil => simp [outcomes]
  | start h hopen now target d a ih =>
    intro i hi
    have hlt := ih i (by simpa [Turn.outcome?] using hi)
    simpa [Turn.target?] using Nat.lt_succ_of_lt hlt
  | success h hlt honce horder stage x ih =>
    simpa [Turn.outcome?, Turn.target?, or_imp, forall_and] using ⟨ih, hlt⟩
  | failure h hlt honce error ih =>
    simpa [Turn.outcome?, Turn.target?, or_imp, forall_and] using ⟨ih, hlt⟩

/-- Later targets do not change where a success has committed the card. -/
theorem Overlapping.landing?_append {ts : List Turn} (h : Overlapping ts) (more : List String)
    {t : Turn} (ht : t ∈ ts) :
    t.landing? (targets ts ++ more) = t.landing? (targets ts) := by
  cases t with
  | start => rfl
  | failure => rfl
  | success i stage x =>
    have hi := h.lt_of_mem i (List.mem_filterMap.2 ⟨_, ht, rfl⟩)
    simp [Turn.landing?, List.getElem?_append_left hi]

/-- Whether the newest move has failed. -/
def isOver (ts : List Turn) : Bool := ts.any (·.fails ((targets ts).length - 1))

theorem not_isOver {ts : List Turn} (ho : Overlapping ts)
    (h : ∀ i, i + 1 = (targets ts).length → i ∉ outcomes ts) : isOver ts = false := by
  refine List.any_eq_false.2 fun t ht hf => ?_
  have hmem := mem_outcomes_of_fails ht hf
  have hlt := ho.lt_of_mem _ hmem
  exact h _ (by omega) hmem

/-- Until the newest move fails all turns are heeded. -/
theorem heeded_of_not_isOver {ts : List Turn} (h : isOver ts = false) : heeded ts = ts :=
  List.takeWhile_eq_self_iff.2 fun t ht => by simpa using List.any_eq_false.1 h t ht

/-- After that, none is. -/
theorem heeded_of_isOver {ts : List Turn} (h : isOver ts = true) {t : Turn}
    (ht : t.target? = none) : heeded (ts ++ [t]) = heeded ts := by
  have hne : (heeded ts).length ≠ ts.length := by
    intro hlen
    have hself : heeded ts = ts := (List.takeWhile_prefix _).eq_of_length hlen
    obtain ⟨u, hu, hf⟩ := List.any_eq_true.1 h
    have hnot := List.takeWhile_eq_self_iff.1 hself u hu
    simp [hf] at hnot
  rw [heeded, targets_concat, ht, Option.toList_none, List.append_nil, List.takeWhile_append]
  exact if_neg hne

/-- The failure of the newest move is not heeded, any other outcome before it is. -/
theorem heeded_concat {ts : List Turn} (h : isOver ts = false) {t : Turn}
    (ht : t.target? = none) :
    heeded (ts ++ [t]) = ts ++ if t.fails ((targets ts).length - 1) then [] else [t] := by
  have hall := List.takeWhile_eq_self_iff.1 (heeded_of_not_isOver h)
  rw [heeded, targets_concat, ht, Option.toList_none, List.append_nil,
    List.takeWhile_append_of_pos hall]
  cases hf : t.fails ((targets ts).length - 1) <;> simp [hf]

/-- Where the card is agreed to be: where the last success that is heeded has committed it, or where
it was before all moves. -/
def resting (z : Spot) (ts : List Turn) : Spot :=
  ((heeded ts).filterMap (Turn.landing? (targets ts))).getLast?.getD z

theorem resting_start {ts : List Turn} (h : Overlapping ts)
    (hopen : ∀ i, i + 1 = (targets ts).length → i ∉ outcomes ts) (z : Spot) (now : Float)
    (target : String) (d : Directive) (a : Allocator) :
    resting z (ts ++ [.start now target d a]) = resting z ts := by
  -- of the new move no outcome can be known
  have hnew : isOver (ts ++ [.start now target d a]) = false := by
    refine not_isOver (h.start hopen now target d a) fun i hi hmem => ?_
    have hlt := h.lt_of_mem i (by simpa [Turn.outcome?] using hmem)
    have hlen : i = (targets ts).length := by simpa [Turn.target?] using hi
    omega
  have hnone (us : List String) :
      [Turn.start now target d a].filterMap (Turn.landing? us) = [] := rfl
  rw [resting, resting, heeded_of_not_isOver hnew, heeded_of_not_isOver (not_isOver h hopen),
    List.filterMap_append, hnone, List.append_nil, targets_concat,
    List.filterMap_congr fun t ht => h.landing?_append _ ht]

theorem resting_failure (z : Spot) (ts : List Turn) (i : Nat) (error : Option Reason) :
    resting z (ts ++ [.failure i error]) = resting z ts := by
  have hnone (us : List String) :
      (if Turn.fails ((targets ts).length - 1) (.failure i error) then []
        else [Turn.failure i error]).filterMap (Turn.landing? us) = [] := by
    split <;> rfl
  rw [resting, resting, targets_concat]
  cases ho : isOver ts with
  | true =>
    rw [heeded_of_isOver ho rfl]
    simp [Turn.target?]
  | false =>
    rw [heeded_concat ho rfl, heeded_of_not_isOver ho, List.filterMap_append, hnone]
    simp [Turn.target?]

/-- A success sets the place unless the newest move has failed. -/
theorem resting_success (z : Spot) (ts : List Turn) (i : Nat) (stage : Option String) (x : Float) :
    resting z (ts ++ [.success i stage x]) =
      if isOver ts then resting z ts
      else ((namedStage stage).getD (.text ((targets ts)[i]?.getD "")), .real x) := by
  rw [resting, targets_concat]
  cases ho : isOver ts with
  | true =>
    rw [heeded_of_isOver ho rfl, if_pos rfl, resting]
    simp [Turn.target?]
  | false =>
    rw [heeded_concat ho rfl, if_neg Bool.false_ne_true]
    simp [Turn.fails, Turn.target?, Turn.landing?]

/-! ## What is kept -/

/-- The record of one of the moves. -/
structure Link (card : String) (first : Nat) (ts : List Turn) (i : Nat) (m : Move) : Prop where
  card : m.card = card
  target : ∃ target, (targets ts)[i]? = some target ∧ m.toStage = .text target
  free : m.superseded = false
  state : m.state = .optimistic ↔ i ∉ outcomes ts
  next : m.replacedBy = if i + 1 < (targets ts).length then some (first + i + 1) else none

/-- What is kept from turn to turn: the moves form a chain, at most the newest is waited for, and the
card is agreed to be where it rests. -/
structure Overlap (card : String) (first : Nat) (z : Spot) (ts : List Turn) (p : Projection) :
    Prop where
  regular : p.Regular
  number : p.nextMove = first + (targets ts).length
  pledged : Pledged card (resting z ts) p
  record : ∀ i, i < (targets ts).length →
    ∃ m, Entries.get? (first + i) p.moves = some m ∧ Link card first ts i m
  waiting : ∀ k, Entries.get? card p.pending = some k → first ≤ k ∧ k + 1 = p.nextMove

variable {first : Nat} {z : Spot} {ts : List Turn}

/-- While the newest move is unsettled it is live. -/
theorem Overlap.live (h : Overlap card first z ts p) {i : Nat} (hi : i + 1 = (targets ts).length)
    (ho : i ∉ outcomes ts) :
    ∃ m, Entries.get? (first + i) p.moves = some m ∧ Link card first ts i m ∧
      p.live? card = some m := by
  obtain ⟨m, hm, hlink⟩ := h.record i (by omega)
  have hnext : m.replacedBy = none := by rw [hlink.next, if_neg (by omega)]
  have hl := h.regular.ledger.live?_of_unsettled hm (hlink.state.2 ho) hnext hlink.free
  exact ⟨m, hm, hlink, hlink.card ▸ hl⟩

/-- Once the newest move is settled none is live. -/
theorem Overlap.not_live (h : Overlap card first z ts p)
    (ho : ∀ i, i + 1 = (targets ts).length → i ∈ outcomes ts) : p.pendingMove card = none := by
  unfold pendingMove
  cases hk : Entries.get? card p.pending with
  | none => rfl
  | some k =>
    obtain ⟨hle, hlast⟩ := h.waiting k hk
    obtain ⟨i, rfl⟩ := Nat.exists_eq_add_of_le hle
    have hi : i + 1 = (targets ts).length := by
      rw [h.number] at hlast
      omega
    -- its record says that it is settled
    obtain ⟨m, hm, hlink⟩ := h.record i (by omega)
    obtain ⟨m', hm', -, hs, -⟩ := h.regular.ledger.waiting hk
    obtain rfl := Option.some.inj (hm.symm.trans hm')
    exact absurd (ho i hi) (hlink.state.1 hs)

/-- From a move of the chain one gets to moves of the chain only. -/
theorem Overlap.chain (h : Overlap card first z ts p) {i : Nat} {m l : Move}
    (hi : i < (targets ts).length) (hm : Entries.get? (first + i) p.moves = some m)
    (hl : Relation.ReflTransGen p.Replaces m l) :
    ∃ j, j < (targets ts).length ∧ Entries.get? (first + j) p.moves = some l := by
  -- Each link of the chain leads from the attempt `j` to the attempt `j + 1`.
  induction hl with
  | refl => exact ⟨i, hi, hm⟩
  | tail _ hstep ih =>
    obtain ⟨j, hj, hmj⟩ := ih
    obtain ⟨k, hk, hmk⟩ := hstep
    obtain ⟨m', hm', hlink⟩ := h.record j hj
    obtain rfl := Option.some.inj (hmj.symm.trans hm')
    rw [hlink.next] at hk
    split at hk
    · rename_i hlt
      obtain rfl := Option.some.inj hk
      exact ⟨j + 1, hlt, hmk⟩
    · simp at hk

/-- The chain of every move ends in the newest. -/
theorem Overlap.latest (h : Overlap card first z ts p) {i : Nat} {m : Move}
    (hi : i < (targets ts).length) (hm : Entries.get? (first + i) p.moves = some m) :
    Entries.get? (first + ((targets ts).length - 1)) p.moves =
      some (p.latest p.moves.length m) := by
  obtain ⟨hchain, hend, -⟩ := h.regular.ledger.newest (h.regular.ledger.numbered_id hm)
  obtain ⟨j, hj, hmj⟩ := h.chain hi hm hchain
  obtain ⟨m', hm', hlink⟩ := h.record j hj
  obtain rfl := Option.some.inj (hmj.symm.trans hm')
  -- nothing has replaced it, so it is the last of the chain
  rw [hlink.next] at hend
  split at hend
  · simp at hend
  · obtain rfl : j = (targets ts).length - 1 := by omega
    exact hmj

/-- A success of a replaced move changes where the newest goes back to, if that is unsettled. -/
theorem Overlap.heir (h : Overlap card first z ts p) {i : Nat} {m : Move}
    (hi : i + 1 < (targets ts).length) (hm : Entries.get? (first + i) p.moves = some m) :
    (p.heir? m).isSome = true ↔ (targets ts).length - 1 ∉ outcomes ts := by
  obtain ⟨m', hm', hlink⟩ := h.record i (by omega)
  obtain rfl := Option.some.inj (hm.symm.trans hm')
  obtain ⟨l, hl, hlast⟩ := h.record ((targets ts).length - 1) (by omega)
  obtain rfl := Option.some.inj ((h.latest (by omega) hm).symm.trans hl)
  have hr : m.replacedBy.isSome = true := by rw [hlink.next, if_pos hi]; rfl
  rw [← hlast.state, heir?]
  simp only [hr, hlast.free, Bool.true_and, Bool.not_false, Bool.and_true, decide_eq_true_eq]
  split <;> simp_all

/-- A success has a say in where the card rests unless the newest move has failed: any other outcome of
the newest move would have come later. -/
theorem Overlap.heeds (h : Overlap card first z ts p) (ho : Overlapping ts) {i : Nat} {m : Move}
    (hi : i < (targets ts).length) (hm : Entries.get? (first + i) p.moves = some m)
    (honce : i ∉ outcomes ts) (horder : ∀ j ∈ successes ts, j < i) :
    p.live? card = some m ∨ (p.heir? m).isSome = true ↔ isOver ts = false := by
  -- Successes come before attempt `i`, so an answered last attempt has failed.
  by_cases hlast : (targets ts).length - 1 ∈ outcomes ts
  · have hover : isOver ts = true := by
      refine List.any_eq_true.2 (fails_of_mem_outcomes hlast fun hsucc => ?_)
      have hlt := horder _ hsucc
      omega
    have hnone : p.live? card = none := by
      refine live?_of_not_pending (h.not_live fun j hj => ?_)
      obtain rfl : j = (targets ts).length - 1 := by omega
      exact hlast
    have hne : i + 1 < (targets ts).length := by
      rcases Nat.lt_or_ge (i + 1) (targets ts).length with hlt | hge
      · exact hlt
      · obtain rfl : i = (targets ts).length - 1 := by omega
        exact absurd hlast honce
    rw [hnone, h.heir hne hm, hover]
    simp [hlast]
  · have hopen : isOver ts = false := not_isOver ho fun j hj => by
      obtain rfl : j = (targets ts).length - 1 := by omega
      exact hlast
    simp only [hopen, iff_true]
    -- A later attempt inherits the landing; without one, `i` itself is the live move.
    rcases Nat.lt_or_ge (i + 1) (targets ts).length with hlt | hge
    · exact .inr ((h.heir hlt hm).2 hlast)
    · obtain ⟨m', hm', -, hl⟩ := h.live (i := i) (by omega) honce
      obtain rfl := Option.some.inj (hm.symm.trans hm')
      exact .inl hl

/-! ## One turn -/

/-- The records of the other moves after an outcome, which differ from those before it at most in
where they go back to. -/
theorem Link.concat {i : Nat} {m m' : Move} (h : Link card first ts i m) {t : Turn} {j : Nat}
    (ht : t.target? = none) (hj : t.outcome? = some j) (hne : i ≠ j)
    (hm : m' = m ∨ ∃ s y k, m' = redirected s y k m) : Link card first (ts ++ [t]) i m' := by
  have hmem : i ∉ outcomes (ts ++ [t]) ↔ i ∉ outcomes ts := by simp [hj, hne]
  have htargets : targets (ts ++ [t]) = targets ts := by simp [ht]
  rcases hm with rfl | ⟨s, y, k, rfl⟩
  · exact ⟨h.card, htargets ▸ h.target, h.free, h.state.trans hmem.symm, htargets ▸ h.next⟩
  · exact ⟨h.card, htargets ▸ h.target, h.free, h.state.trans hmem.symm, htargets ▸ h.next⟩

/-- The record of the move that an outcome is of. -/
theorem Link.settled {i : Nat} {m m' : Move} (h : Link card first ts i m) {t : Turn}
    (ht : t.target? = none) (hi : t.outcome? = some i) (hcard : m'.card = m.card)
    (hstage : m'.toStage = m.toStage) (hfree : m'.superseded = m.superseded)
    (hnext : m'.replacedBy = m.replacedBy) (hs : m'.state ≠ .optimistic) :
    Link card first (ts ++ [t]) i m' := by
  have htargets : targets (ts ++ [t]) = targets ts := by simp [ht]
  refine ⟨hcard.trans h.card, ?_, hfree.trans h.free, ?_, ?_⟩
  · rw [htargets, hstage]
    exact h.target
  · simp [hi, hs]
  · rw [htargets, hnext, h.next]

/-- The record of an older move after a move was started: the newest of those before is replaced by
the new one, and no other is. -/
theorem Link.started (h : p.Ledger) {i : Nat} {m m' : Move} (hlink : Link card first ts i m')
    (hm' : Entries.get? (first + i) p.moves = some m') (hi : i < (targets ts).length)
    (hopen : ∀ i, i + 1 = (targets ts).length → i ∉ outcomes ts) (hcard : m.card = card)
    (hid : m.id = first + (targets ts).length) (now : Float) (target : String) (d : Directive)
    (a : Allocator) : Link card first (ts ++ [.start now target d a]) i (p.giveWay m m') := by
  have htargets : targets (ts ++ [.start now target d a]) = targets ts ++ [target] := by
    simp [Turn.target?]
  have hnext : (p.giveWay m m').replacedBy = some (first + i + 1) := by
    unfold giveWay
    -- Only the last attempt gives way to the new one, the earlier ones are replaced already.
    by_cases hlast : i + 1 = (targets ts).length
    · have hr : m'.replacedBy = none := by rw [hlink.next, if_neg (by omega)]
      have hp := h.pendingMove_of_unsettled hm' (hlink.state.2 (hopen i hlast)) hr
      rw [hcard, ← hlink.card, if_pos hp, hid, ← hlast, Nat.add_assoc]
    · have hr := hlink.next
      rw [if_pos (by omega)] at hr
      rw [if_neg, hr]
      intro hp
      simp [(h.of_pendingMove hp).2.2.2] at hr
  refine ⟨(card_giveWay m m' p).trans hlink.card, ?_, ?_, ?_, ?_⟩
  · rw [htargets, List.getElem?_append_left hi, toStage_giveWay]
    exact hlink.target
  · rw [superseded_giveWay, hlink.free]
  · rw [state_giveWay, hlink.state]
    simp [Turn.outcome?]
  · rw [hnext, htargets, if_pos]
    simpa using hi

/-- The record of the move that was started. -/
theorem Link.new (ho : Overlapping ts) {m : Move} (hm : p.Fresh m) (hcard : m.card = card)
    {target : String} (hstage : m.toStage = .text target) (now : Float) (d : Directive)
    (a : Allocator) :
    Link card first (ts ++ [.start now target d a]) (targets ts).length (p.inherit m) := by
  have htargets : targets (ts ++ [.start now target d a]) = targets ts ++ [target] := by
    simp [Turn.target?]
  refine ⟨(card_inherit m p).trans hcard, ⟨target, ?_, ?_⟩, ?_, ?_, ?_⟩
  · rw [htargets, List.getElem?_concat_length]
  · rw [toStage_inherit, hstage]
  · rw [superseded_inherit, hm.superseded]
  · have hnot : (targets ts).length ∉ outcomes ts := fun hmem =>
      Nat.lt_irrefl _ (ho.lt_of_mem _ hmem)
    simp [state_inherit, hm.state, Turn.outcome?, hnot]
  · rw [replacedBy_inherit, hm.replacedBy, htargets, if_neg]
    simp

theorem overlap_start (h : Overlap card first z ts p) (ho : Overlapping ts)
    (hopen : ∀ i, i + 1 = (targets ts).length → i ∉ outcomes ts) (now : Float) (target : String)
    (d : Directive) (a : Allocator) :
    Overlap card first z (ts ++ [.start now target d a])
      (p.act (.begin now card target d a)) := by
  have hr := h.regular
  have hreg := regular_act hr (.begin now card target d a) (by simp)
  have hpledged := pledged_begin hr.ledger hr.keys hr.numeric h.pledged now card
    (Value.isName_text target) d a
  rw [← resting_start ho hopen z now target d a] at hpledged
  have hshown : p.spots card ≠ [] := by
    obtain ⟨y, hs, -⟩ := h.pledged
    simp [hs]
  obtain ⟨m, x, b, q, hb, hm, hcard, hstage, -, -, -, hmoves, hpend, hnext⟩ :=
    carried_begin hr.keys hr.numeric hshown (Value.isName_text target) now d a
  have hact : p.act (.begin now card target d a) = q.track m := congrArg (·.2.1) hb
  have hid : m.id = first + (targets ts).length := hm.id.trans h.number
  have hlen : (targets (ts ++ [.start now target d a])).length = (targets ts).length + 1 := by
    simp [Turn.target?]
  -- The records after the start: the new one, and the old ones as they give way to it.
  have hget (k : Nat) : Entries.get? k (q.track m).moves =
      if k = m.id then some (p.inherit m) else (Entries.get? k p.moves).map (p.giveWay m) := by
    rw [moves_track_congr hmoves hpend, hr.ledger.get?_track]
  rw [hact] at hreg ⊢
  refine ⟨hreg, ?_, hact ▸ hpledged, ?_, ?_⟩
  · rw [nextMove_track, hnext, h.number, hlen, Nat.add_assoc]
  · intro i hi
    rw [hlen] at hi
    -- An earlier attempt keeps its link, the new one gets its own.
    rcases Nat.lt_succ_iff_lt_or_eq.1 hi with hi | rfl
    · obtain ⟨m', hm', hlink⟩ := h.record i hi
      refine ⟨p.giveWay m m', ?_, hlink.started hr.ledger hm' hi hopen hcard hid now target d a⟩
      rw [hget, if_neg (by omega), hm', Option.map_some]
    · exact ⟨p.inherit m, (hget _).trans (if_pos hid.symm), Link.new ho hm hcard hstage now d a⟩
  · intro k hk
    rw [pending_track, ← hcard, Entries.get?_put_self] at hk
    obtain rfl := Option.some.inj hk
    rw [nextMove_track, hnext, hid, h.number]
    exact ⟨Nat.le_add_right _ _, rfl⟩

theorem overlap_failure (h : Overlap card first z ts p) {i : Nat} (hi : i < (targets ts).length)
    (honce : i ∉ outcomes ts) (error : Option Reason) :
    Overlap card first z (ts ++ [.failure i error])
      (p.act (.rollback (first + i) (error.map (·.failure)))) := by
  have hr := h.regular
  have hreg := regular_act hr (.rollback (first + i) (error.map (·.failure))) (by simp)
  have hpledged := pledged_rollback hr.ledger hr.keys h.pledged (first + i) error
  rw [← resting_failure z ts i error] at hpledged
  obtain ⟨m, hm, hlink⟩ := h.record i hi
  have hget := get?_rollback hr.ledger hm (hlink.state.2 honce) error
  have htargets : targets (ts ++ [.failure i error]) = targets ts := by simp [Turn.target?]
  rw [act_rollback_reason] at hreg ⊢
  refine ⟨hreg, ?_, hpledged, ?_, ?_⟩
  · rw [htargets, ← h.number]
    exact nextMove_rollback hr.ledger _ _
  · intro j hj
    rw [htargets] at hj
    by_cases hji : j = i
    · subst hji
      refine ⟨failed (error.map (·.failure)) m, (hget _).trans (if_pos rfl), ?_⟩
      exact hlink.settled rfl rfl rfl rfl rfl rfl (by simp [failed])
    · obtain ⟨m', hm', hlink'⟩ := h.record j hj
      refine ⟨m', ?_, hlink'.concat rfl rfl hji (.inl rfl)⟩
      exact (hget _).trans ((if_neg (by omega)).trans hm')
  · intro k hk
    obtain ⟨hk, -⟩ := pending_rollback hr.ledger hm error hk
    obtain ⟨hle, hlast⟩ := h.waiting k hk
    exact ⟨hle, hlast.trans (nextMove_rollback hr.ledger _ _).symm⟩

theorem overlap_success (h : Overlap card first z ts p) {i : Nat}
    (hi : i < (targets ts).length) (honce : i ∉ outcomes ts) (ho : Overlapping ts)
    (horder : ∀ j ∈ successes ts, j < i) (stage : Option String) (x : Float) :
    Overlap card first z (ts ++ [.success i stage x])
      (p.act (.confirm (first + i) stage (some x))) := by
  have hr := h.regular
  have hreg := regular_act hr (.confirm (first + i) stage (some x)) (by simp)
  obtain ⟨m, hm, hlink⟩ := h.record i hi
  have hs := hlink.state.2 honce
  obtain ⟨hown, hothers⟩ := get?_confirm hr.ledger hm hs (namedStage stage) (.real x)
  have htargets : targets (ts ++ [.success i stage x]) = targets ts := by simp [Turn.target?]
  have hpledged := pledged_confirm hr.ledger hr.keys (hlink.card ▸ h.pledged) hm hs
    (namedStage stage) (.real x)
  rw [hlink.card] at hpledged
  rw [act_confirm] at hreg ⊢
  refine ⟨hreg, ?_, ?_, ?_, ?_⟩
  · rw [htargets, ← h.number]
    exact nextMove_confirm hr.ledger _ _ _
  · obtain ⟨target, htarget, hstage⟩ := hlink.target
    have hland : (namedStage stage).getD m.toStage =
        (namedStage stage).getD (.text ((targets ts)[i]?.getD "")) := by
      rw [htarget, hstage]
      rfl
    -- The landing counts as long as no failure of the last attempt has ended the overlap.
    have hiff := h.heeds ho hi hm honce horder
    rw [resting_success]
    cases hover : isOver ts with
    | true =>
      rw [if_neg (by rw [hiff, hover]; simp)] at hpledged
      exact hpledged
    | false =>
      rw [if_pos (hiff.2 hover), hland] at hpledged
      exact hpledged
  · intro j hj
    rw [htargets] at hj
    by_cases hji : j = i
    · subst hji
      exact ⟨succeeded (.real x) m, hown, hlink.settled rfl rfl rfl rfl rfl rfl (by simp [succeeded])⟩
    · obtain ⟨m', hm', hlink'⟩ := h.record j hj
      obtain ⟨m'', hm'', hm⟩ := hothers (first + j) m' (by omega) hm'
      exact ⟨m'', hm'', hlink'.concat rfl rfl hji hm⟩
  · intro k hk
    obtain ⟨hk, -⟩ := pending_confirm hr.ledger hm _ _ hk
    obtain ⟨hle, hlast⟩ := h.waiting k hk
    exact ⟨hle, hlast.trans (nextMove_confirm hr.ledger _ _ _).symm⟩

/-! ## All turns -/

/-- The turns as acts. -/
def turnsToActs (card : String) (first : Nat) (ts : List Turn) : List Act :=
  ts.map (Turn.toAct card first)

theorem overlap_run (h : p.Regular) (hs : p.spots card = [z]) (hp : p.pendingMove card = none)
    (ho : Overlapping ts) :
    Overlap card p.nextMove z ts (p.run (turnsToActs card p.nextMove ts)) := by
  induction ho with
  | nil =>
    refine ⟨h, rfl, pledged_of_not_live hs (live?_of_not_pending hp), by simp [targets], ?_⟩
    intro k hk
    change Entries.get? card p.pending = some k at hk
    rw [h.ledger.pendingMove_eq_none_iff.1 hp] at hk
    simp at hk
  | start ho hopen now target d a ih =>
    rw [turnsToActs, List.map_append, List.map_singleton, run_concat]
    exact overlap_start ih ho hopen now target d a
  | success ho hi honce horder stage x ih =>
    rw [turnsToActs, List.map_append, List.map_singleton, run_concat]
    exact overlap_success ih hi honce ho horder stage x
  | failure ho hi honce error ih =>
    rw [turnsToActs, List.map_append, List.map_singleton, run_concat]
    exact overlap_failure ih hi honce error

/-- Where the successes have committed the card that are learned after the newest move has failed. -/
def lateLandings (ts : List Turn) : List Spot :=
  (ts.dropWhile fun t => !t.fails ((targets ts).length - 1)).filterMap
    (Turn.landing? (targets ts))

theorem landings_eq (ts : List Turn) :
    landings ts = (heeded ts).filterMap (Turn.landing? (targets ts)) ++ lateLandings ts := by
  rw [lateLandings, ← List.filterMap_append, heeded, List.takeWhile_append_dropWhile, landings]

/-- A card that is shown once and waits for nothing is moved over and over, each time before the outcome
of the move before is known, and all outcomes are learned, those of successes in the order of the
moves. The card is then where the last success has committed it that was learned before the newest
move failed, or, if there is none, where it was. That is where the newest of all successful moves was
committed, or where the card was if no move has succeeded, unless a success is learned after the newest
move has failed, and has committed the card elsewhere. -/
theorem rests_iff (board : Key) (before : List Act) (hb : WellPlaced before) {card : String}
    {z : Spot} (hs : (run { board } before).spots card = [z])
    (hp : (run { board } before).pendingMove card = none) {turns : List Turn}
    (ho : Overlapping turns) (hall : ∀ i, i < (targets turns).length → i ∈ outcomes turns) :
    ∃ q, q = (run { board } before).run
        (turnsToActs card (run { board } before).nextMove turns) ∧
      q.spots card = [resting z turns] ∧
      (q.spots card = [(landings turns).getLast?.getD z] ↔
        ∀ y, (lateLandings turns).getLast? = some y → y = resting z turns) := by
  have hover := overlap_run (regular_run board hb) hs hp ho
  have hlive : live? card _ = none :=
    live?_of_not_pending (hover.not_live fun i hi => hall i (by omega))
  have hrests := hover.pledged.of_not_live hlive
  refine ⟨_, rfl, hrests, ?_⟩
  rw [hrests, landings_eq, List.getLast?_append]
  cases (lateLandings turns).getLast? with
  | none => simp [resting]
  | some y => simp [eq_comm]

/-- A card is moved twice; the first move succeeds, then the second fails. -/
def firstKept : List Turn :=
  [.start 0.0 "open" { absolute := some 5.0 } {}, .start 0.0 "new" { absolute := some 6.0 } {},
    .success 0 (some "open") 5.0, .failure 1 none]

/-- A card is moved twice; the second move fails, then the first succeeds. -/
def firstLost : List Turn :=
  [.start 0.0 "open" { absolute := some 5.0 } {}, .start 0.0 "new" { absolute := some 6.0 } {},
    .failure 1 none, .success 0 (some "open") 5.0]

theorem overlapping_firstKept : Overlapping firstKept := by
  refine Overlapping.failure (Overlapping.success (Overlapping.start (Overlapping.start
    Overlapping.nil ?_ _ _ _ _) ?_ _ _ _ _) ?_ ?_ ?_ _ _) ?_ ?_ _
  all_goals simp [targets, outcomes, successes, Turn.target?, Turn.outcome?, Turn.success?]

theorem overlapping_firstLost : Overlapping firstLost := by
  refine Overlapping.success (Overlapping.failure (Overlapping.start (Overlapping.start
    Overlapping.nil ?_ _ _ _ _) ?_ _ _ _ _) ?_ ?_ _) ?_ ?_ ?_ _ _
  all_goals simp [targets, outcomes, successes, Turn.target?, Turn.outcome?, Turn.success?]

/-- The second move goes back to where the first was committed, between the cards that are there. -/
theorem rests_firstKept :
    ∃ q, q = (run { board := "sales" } fiveRead).run
        (turnsToActs "2" (run { board := "sales" } fiveRead).nextMove firstKept) ∧
      q.spots "2" = [resting (.text "new", .real 2.0) firstKept] ∧
      (q.spots "2" = [(landings firstKept).getLast?.getD (.text "new", .real 2.0)] ↔
        ∀ y, (lateLandings firstKept).getLast? = some y →
          y = resting (.text "new", .real 2.0) firstKept) := by
  refine rests_iff "sales" fiveRead wellPlaced_fiveRead ?_ ?_ overlapping_firstKept ?_
  · decide +kernel
  · decide
  · decide

/-- If the failure of the second move is learned before the success of the first, the card is back
where it was before both, and not where it was committed. -/
theorem commit_unheeded :
    (run { board := "sales" } oneRead).spots "1" = [(.text "new", .real 1.0)] ∧
      (run { board := "sales" } oneRead).pendingMove "1" = none ∧ Overlapping firstLost ∧
      (∀ i, i < (targets firstLost).length → i ∈ outcomes firstLost) ∧
      (landings firstLost).getLast? = some (.text "open", .real 5.0) ∧
      ((run { board := "sales" } oneRead).run
        (turnsToActs "1" (run { board := "sales" } oneRead).nextMove firstLost)).spots "1" =
          [(.text "new", .real 1.0)] := by
  refine ⟨by decide +kernel, by decide, overlapping_firstLost, by decide, by decide, ?_⟩
  decide +kernel

end Projection

end Kanban
