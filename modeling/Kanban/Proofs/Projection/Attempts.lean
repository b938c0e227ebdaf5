import Kanban.Proofs.Projection.Regular

/-!
# Kanban.Proofs.Projection.Attempts — a move from its request to its answer

A client moves a card here and now, sends a request and learns what became of it; in the meantime
anything may happen. An answer that is a record settles the move, and so does the failure of the
request; an answer that is no record does not. If the request was refused, the card is back where it
came from, unless something that happened in the meantime concerned the move, or the refusal cannot be
put into words.

* `settled_settle` — every answer that is a record settles the move.
* `Spares`, `aside_act` — what leaves a move under way alone.
* `attempt_settles` — a move from its request to its answer.
* `attempt_astray` — a move that is not settled, and cards that do not come back.
-/

namespace Kanban

namespace Projection

variable {p q : Projection} {card : String}

/-! ## Answers -/

/-- Whether a request failed, or was answered by a record. -/
def Answered : Except Failure Value → Prop
  | .error _ => True
  | .ok v => ∃ r, v.record = .ok r

/-- What went wrong, if the request failed or the answer tells of an error. -/
def refusal? : Except Failure Value → Option Failure
  | .error e => some e
  | .ok v =>
    match v.record with
    | .error _ => none
    | .ok r => (r.getD "error" .null).given?.map fun reason =>
        .rejected reason (r.getD "error_code" .null) (((r.getD "details" .null).given?).getD (.object []))

open Operation

/-- An answer that is no record is an error, and nothing else happens. -/
theorem settle_of_unanswered {answer : Except Failure Value} (h : ¬Answered answer) (n : Nat)
    (p : Projection) : ∃ e, settle n answer p = (.error e, p) := by
  cases answer with
  | error e => exact absurd trivial h
  | ok v =>
    cases hr : v.record with
    | ok r => exact absurd ⟨r, hr⟩ h
    | error f =>
      refine ⟨.unreadable f, ?_⟩
      unfold settle
      simp only [bind_apply, lift_apply, hr, Failure.ofReading]

/-- A refusal is an error in the end, and the client learns that the move has failed. -/
theorem settle_of_refusal {answer : Except Failure Value} {e : Failure}
    (h : refusal? answer = some e) (n : Nat) (p : Projection) :
    ∃ f, settle n answer p = (.error f, p.act (.rollback n (some e))) := by
  have hstep : settle n answer p = (settleFailed n (some e) >>= fun _ => (throw e : Op Unit)) p := by
    cases answer with
    | error e' =>
      obtain rfl := Option.some.inj h
      rfl
    | ok v =>
      cases hr : v.record with
      | error f => simp [refusal?, hr] at h
      | ok r =>
        simp only [refusal?, hr] at h
        rcases Option.map_eq_some_iff.1 h with ⟨reason, hgiven, rfl⟩
        unfold settle
        simp only [bind_apply, lift_apply, hr, hgiven, Failure.ofReading]
  rw [hstep, bind_apply]
  -- it may be the news itself that cannot be taken in
  change ∃ f, _ = (Except.error f, (settleFailed n (some e) p).2)
  cases settleFailed n (some e) p with
  | mk r t =>
    cases r with
    | error f => exact ⟨f, rfl⟩
    | ok u => exact ⟨e, rfl⟩

/-- An answer that tells of no error tells of a success. -/
theorem settle_of_success {answer : Except Failure Value} (h : Answered answer)
    (hn : refusal? answer = none) (n : Nat) (p : Projection) :
    ∃ stage position, settle n answer p = settleConfirmed n stage position p := by
  cases answer with
  | error e => simp [refusal?] at hn
  | ok v =>
    rcases h with ⟨r, hr⟩
    simp only [refusal?, hr, Option.map_eq_none_iff] at hn
    refine ⟨r.getD "committed_stage_key" .null, r.getD "committed_position" .null, ?_⟩
    unfold settle
    simp only [bind_apply, lift_apply, hr, hn, Failure.ofReading]

/-! ## Settled moves -/

/-- A move of a card is settled: its record says so, and no card waits for it. -/
structure Settled (n : Nat) (card : String) (p : Projection) : Prop where
  record : ∃ m, Entries.get? n p.moves = some m ∧ m.card = card ∧ m.state ≠ .optimistic
  waiting : ∀ c, Entries.get? c p.pending ≠ some n

theorem Settled.unrecorded {n : Nat} (h : Settled n card p) (hu : Unrecorded p q) :
    Settled n card q where
  record := hu.moves ▸ h.record
  waiting := hu.pending ▸ h.waiting

/-- A change of records that settles nothing and unsettles nothing. -/
theorem Settled.updateMove {n : Nat} (h : Settled n card p) (k : Nat) {f : Move → Move}
    (hcard : ∀ m, (f m).card = m.card) (hs : ∀ m, (f m).state = m.state) :
    Settled n card (p.updateMove k f) where
  record := by
    rcases h.record with ⟨m, hm, hc, hset⟩
    rw [get?_updateMove, hm]
    split
    · exact ⟨f m, rfl, (hcard m).trans hc, by rwa [hs]⟩
    · exact ⟨m, rfl, hc, hset⟩
  waiting := by
    rw [pending_updateMove]
    exact h.waiting

theorem settled_of_state (h : p.Ledger) {n : Nat} {m : Move}
    (hm : Entries.get? n p.moves = some m) (hs : m.state ≠ .optimistic) : Settled n m.card p where
  record := ⟨m, hm, rfl, hs⟩
  waiting := fun _ hk => h.ne_of_waiting hm hs hk rfl

/-- A move is settled if it is open, and that is all. -/
theorem Closes.settled {n : Nat} (h : Closes n p q) (hp : p.Ledger) {m : Move}
    (hm : Entries.get? n p.moves = some m) : Settled n m.card q := by
  cases h with
  | idle hopen => exact settled_of_state hp hm (by simpa [isOpen, hm] using hopen)
  | @done m' f hm' ho hid hf hs hmark =>
    obtain rfl := Option.some.inj (hm.symm.trans hm')
    subst hid
    refine ⟨⟨f m, ?_, hf.card m, hs⟩, fun _ hk => ?_⟩
    · rw [get?_moves_settle, if_pos rfl, hm, Option.map_some]
    · exact ((Closes.done hm ho rfl hf hs hmark).pending hp hk).2 rfl

/-- A success settles its move, whatever position it tells. -/
theorem settled_confirm (h : p.Ledger) {n : Nat} {m : Move} (hm : Entries.get? n p.moves = some m)
    (stage : Option Key) (position : Option Mark) :
    Settled n m.card (p.confirm n stage position) := by
  cases position with
  | none => exact (closes_confirm h n stage).settled h hm
  | some x =>
    refine ⟨?_, fun _ hk => (pending_confirm h hm stage (some x) hk).2 rfl⟩
    by_cases ho : m.state = .optimistic
    · exact ⟨succeeded x m, (get?_confirm h hm ho stage x).1, rfl, by simp [succeeded]⟩
    · rw [confirm_settled hm ho]
      exact ⟨m, hm, rfl, ho⟩

/-- A failure settles its move, with or without words. -/
theorem settled_act_rollback (h : p.Ledger) {n : Nat} {m : Move}
    (hm : Entries.get? n p.moves = some m) (error : Option Failure) :
    Settled n m.card (p.act (.rollback n error)) := by
  rcases act_rollback n error p with ⟨reason, -, -, hq⟩ | ⟨fault, -, hq⟩
  · have hsettled : Settled n m.card (p.rollback n reason) := by
      refine ⟨?_, fun _ hk => (pending_rollback h hm reason hk).2 rfl⟩
      by_cases ho : m.state = .optimistic
      · refine ⟨failed (reason.map (·.failure)) m, ?_, rfl, by simp [failed]⟩
        rw [get?_rollback h hm ho, if_pos rfl]
      · rw [rollback_settled hm ho]
        exact ⟨m, hm, rfl, ho⟩
    rw [hq]
    exact hsettled.unrecorded ⟨rfl, rfl, rfl⟩
  · rw [hq]
    exact (closes_giveUp h n error).settled h hm

/-- A success at a stage that cannot be a key settles its move, and a card may be lost then, or the place
where a later move is to go back to. -/
theorem settled_settleNowhere (h : p.Ledger) {n : Nat} {m : Move}
    (hm : Entries.get? n p.moves = some m) (stage position : Value) :
    Settled n m.card (settleNowhere n stage position p).2 := by
  have hdone := (settled_confirm h hm none none).updateMove n
    (f := ({ · with committed := position })) (fun _ => rfl) fun _ => rfl
  unfold settleNowhere
  simp only [bind_apply, get_apply, hm, if_apply, set_apply]
  generalize (p.confirm n none none).updateMove n ({ · with committed := position }) = q at hdone
  by_cases hs : m.state = .optimistic
  · rw [if_neg (not_not.2 hs)]
    cases markOf position with
    | none => exact hdone
    | some x =>
      simp only [if_apply, bind_apply, set_apply, throw_apply]
      split_ifs
      · exact hdone.updateMove _ (fun _ => rfl) fun _ => rfl
      · exact hdone
      · exact hdone.unrecorded (unrecorded_lose m.card _).1
      · exact hdone
  · rw [if_pos hs]
    exact settled_of_state h hm hs

/-- An answer of success settles its move, whatever it tells of the stage and the position. -/
theorem settled_settleConfirmed (h : p.Ledger) {n : Nat} {m : Move}
    (hm : Entries.get? n p.moves = some m) (stage position : Value) :
    Settled n m.card (settleConfirmed n stage position p).2 := by
  have hplaced (s : Option Key) :
      Settled n m.card (checkOrder (p.confirm n s (markOf position))).2 := by
    rw [state_checkOrder]
    exact (settled_confirm h hm s _).unrecorded ⟨rfl, rfl, rfl⟩
  unfold settleConfirmed
  cases stage.given? with
  | none => exact hplaced none
  | some s =>
    simp only [if_apply]
    split
    · exact hplaced (some s)
    · exact settled_settleNowhere h hm s position

/-- Every answer that is a record settles the move. -/
theorem settled_settle (h : p.Ledger) {n : Nat} {m : Move} (hm : Entries.get? n p.moves = some m)
    {answer : Except Failure Value} (ha : Answered answer) :
    Settled n m.card (settle n answer p).2 := by
  cases hr : refusal? answer with
  | some e =>
    rcases settle_of_refusal hr n p with ⟨f, hs⟩
    rw [hs]
    exact settled_act_rollback h hm (some e)
  | none =>
    rcases settle_of_success ha hr n p with ⟨stage, position, hs⟩
    rw [hs]
    exact settled_settleConfirmed h hm stage position

/-! ## What happens in the meantime -/

/-- Whether an event is about the card of a move, or closes the stage that the move goes to or goes
back to. -/
def Concerns (m : Move) (e : Value) : Prop :=
  ∃ r, e.record = .ok r ∧
    ((r.getD "event" .null = .text "card_moved" ∧
        ∃ v, Entries.get? "card_id" r = some v ∧ v.shown = m.card) ∨
      (r.getD "event" .null = .text "stage_deactivated" ∧
        ∃ stage, Entries.get? "stage_key" r = some stage ∧
          (stage = m.toStage ∨ stage = m.fromStage)))

/-- Whether an act leaves a move under way alone: it does not move the card of the move, is no success
of an unsettled move of it and not the outcome of the move, and tells nothing that concerns the
move. -/
def Spares (m : Move) (p : Projection) : Act → Prop
  | .begin _ c _ _ _ => c ≠ m.card
  | .confirm n _ _ =>
    ∀ r, Entries.get? n p.moves = some r → r.state = .optimistic → r.card ≠ m.card
  | .rollback n _ => n ≠ m.id
  | .hear e => ¬Concerns m e
  | .refresh _ => False

/-- Whether all of some acts leave a move under way alone. -/
def Spared (m : Move) : Projection → List Act → Prop
  | _, [] => True
  | p, a :: as => Spares m p a ∧ Spared m (p.act a) as

theorem Aside.calmed (h : Aside card p q) : Aside card p q.calmed := ⟨h.spots, h.live⟩

/-- Folding a stage leaves a live move and its card alone, or the move goes to that stage or goes back to it,
and is not live any more. -/
theorem aside_or_ended_fold (h : p.Regular) {m : Move} (hl : p.live? m.card = some m) {x : Mark}
    (hs : p.spots m.card = [(m.toStage, x)]) (stage fallback : Key) :
    Aside m.card p (p.fold stage fallback).2 ∨
      (p.fold stage fallback).2.live? m.card = none ∧
        (stage = m.toStage ∨ stage = m.fromStage) := by
  cases hleaves : leaves stage m with
  | true =>
    right
    have hends : m.toStage = stage ∨ m.fromStage = stage := by
      simpa [leaves] using hleaves
    refine ⟨?_, hends.imp Eq.symm Eq.symm⟩
    rw [live?_fold h.ledger, hl]
    simp [Option.filter, hleaves]
  | false =>
    left
    have hne : stage ≠ m.toStage := by
      rintro rfl
      simp [leaves] at hleaves
    refine aside_fold h.ledger h.keys (marks_of_alone h.keys hs hne) (fun l hl' => ?_) fallback
    rwa [← Option.some.inj (hl.symm.trans hl')]

/-- An event leaves a live move and its card alone, or it concerns the move, and the move is not live any
more. -/
theorem aside_or_ended (h : p.Regular) {m : Move} (hl : p.live? m.card = some m) {x : Mark}
    (hs : p.spots m.card = [(m.toStage, x)]) (ht : m.toStage.isName = true) {e : Value}
    (he : Placed e) :
    Aside m.card p (p.act (.hear e)) ∨
      (p.act (.hear e)).live? m.card = none ∧ Concerns m e := by
  have key := heard e p
  generalize p.act (.hear e) = q at key
  have hmoved {c : String} {v : Value} {r : Entries String Value} (hr : e.record = .ok r)
      (hm : r.getD "event" .null = .text "card_moved")
      (hv : Entries.get? "card_id" r = some v) (hvc : v.shown = c) (hc : m.card = c) :
      Concerns m e := ⟨r, hr, .inl ⟨hm, v, hv, hvc.trans hc.symm⟩⟩
  cases key with
  | ignored => exact .inl (.refl _ _)
  | unplaced c stage position r hr hm hpos f hf =>
    rcases he r position hr hm hpos with ⟨y, hy⟩
    simp [hy] at hf
  | lost c stage y r hr hk hn hm v hv hvc =>
    by_cases hc : m.card = c
    · right
      refine ⟨?_, hmoved hr hm hv hvc hc⟩
      rw [(unrecorded_lose c _).1.live?, live?_hear h.ledger, if_pos hc]
    · left
      have hcol := (booked_hear h.ledger c stage y).2.1
      exact (aside_hear h.ledger hc stage y).trans (aside_lose (keys_congr hcol ▸ h.keys) hc)
  | moved c stage y r hr hm v hv hvc =>
    by_cases hc : m.card = c
    · right
      refine ⟨?_, hmoved hr hm hv hvc hc⟩
      exact (live?_remoteMove h.ledger c stage y m.card).trans (if_pos hc)
    · exact .inl (aside_remoteMove h.ledger h.keys hc stage y).calmed
  | emptied stage fallback r hr hf hn hm hk =>
    rcases aside_or_ended_fold h hl hs stage fallback with haside | ⟨hended, hends⟩
    · left
      -- the card is in the target, which can be a key, and the fallback cannot
      have hne : fallback ≠ m.toStage := by
        rintro rfl
        simp [ht] at hn
      have hkeys := (spots_fold h.keys stage fallback).1
      exact haside.trans (aside_drop hkeys (marks_of_alone hkeys (haside.alone hs) hne)
        ⟨rfl, rfl, rfl⟩ rfl)
    · exact .inr ⟨hended, r, hr, .inr ⟨hm, stage, hk, hends⟩⟩
  | folded stage fallback r hr hm hk =>
    rcases aside_or_ended_fold h hl hs stage fallback with haside | ⟨hended, hends⟩
    · exact .inl haside.calmed
    · exact .inr ⟨hended, r, hr, .inr ⟨hm, stage, hk, hends⟩⟩

/-- What leaves a live move alone leaves its card where it is. -/
theorem aside_act (h : p.Regular) {m : Move} (hl : p.live? m.card = some m) {x : Mark}
    (hs : p.spots m.card = [(m.toStage, x)]) (ht : m.toStage.isName = true) (a : Act)
    (ha : ∀ e, a = .hear e → Placed e) (hsp : Spares m p a) : Aside m.card p (p.act a) := by
  have hm := (h.ledger.of_pendingMove (live?_eq_some_iff.1 hl).1).1
  cases a with
  | begin now c target d a =>
    exact aside_begin h.ledger h.keys h.numeric (Ne.symm hsp) now (Value.isName_text target) d a
  | confirm n stage position =>
    rw [act_confirm]
    cases position with
    | none =>
      refine ((closes_confirm h.ledger n (namedStage stage)).aside h.ledger fun r hr hlive => ?_).calmed
      have hwait := h.ledger.of_pendingMove (live?_eq_some_iff.1 hlive).1
      exact hsp r hr hwait.2.2.1 hwait.2.1
    | some y => exact (aside_confirm h.ledger h.keys hsp (namedStage stage) (.real y)).calmed
  | rollback n error =>
    have hother : ∀ m', Entries.get? n p.moves = some m' → p.live? m.card ≠ some m' := by
      intro m' hm' hlive
      obtain rfl := Option.some.inj (hl.symm.trans hlive)
      exact hsp (h.ledger.numbered hm').1.symm
    rcases act_rollback n error p with ⟨reason, -, -, hq⟩ | ⟨fault, -, hq⟩
    · rw [hq]
      exact (aside_rollback h.ledger h.keys hother reason).calmed
    · rw [hq]
      exact (closes_giveUp h.ledger n error).aside h.ledger hother
  | hear e =>
    rcases aside_or_ended h hl hs ht (ha e rfl) with haside | ⟨-, hconcerns⟩
    · exact haside
    · exact absurd hconcerns hsp
  | refresh payload => exact hsp.elim

theorem aside_run (h : p.Regular) {m : Move} (hl : p.live? m.card = some m) {x : Mark}
    (hs : p.spots m.card = [(m.toStage, x)]) (ht : m.toStage.isName = true) {acts : List Act}
    (ha : WellPlaced acts) (hsp : Spared m p acts) : Aside m.card p (p.run acts) := by
  induction acts generalizing p with
  | nil => exact .refl _ _
  | cons a acts ih =>
    have hplaced : ∀ e, a = .hear e → Placed e := fun e he => ha e (by simp [he])
    have haside := aside_act h hl hs ht a hplaced hsp.1
    have hrest := ih (regular_act h a hplaced) (haside.live.trans hl) (haside.alone hs)
      (fun e he => ha e (List.mem_cons_of_mem _ he)) hsp.2
    exact haside.trans hrest

/-! ## A move from its request to its answer -/

/-- The place that a card is agreed to be at, if it is shown at a place: where its live move goes back
to, or where it is shown. -/
def ground (card : String) (p : Projection) (z : Spot) : Spot :=
  ((p.live? card).map Move.origin).getD z

/-- While nothing concerns a move under way, its card is shown where it was moved to. -/
theorem Sent.aside_run {target : String} {m : Move} (h : Sent card target p q m) {z : Spot}
    (hz : p.spots card = [z]) {between : List Act} (hb : WellPlaced between)
    (hs : Spared m q between) : Aside card q (q.run between) := by
  have hcard := (h.regular.ledger.of_pendingMove (live?_eq_some_iff.1 h.live).1).2.1
  have hlive := h.live
  have hat := h.shown hz
  rw [← hcard] at hlive hat ⊢
  refine Projection.aside_run h.regular hlive hat ?_ hb hs
  rw [h.stage]
  exact Value.isName_text target

/-- A move under way that nothing concerned fails: with words its card is back where it was agreed to be
before, and without words it stays where it was moved to. -/
theorem Sent.spots_rollback {target : String} {m : Move} (h : Sent card target p q m) {z : Spot}
    (hz : p.spots card = [z]) {between : List Act} (hb : WellPlaced between)
    (hs : Spared m q between) (e : Failure) :
    ((q.run between).act (.rollback m.id (some e))).spots card =
      [if e.fault? = none then ground card p z else (m.toStage, .real m.provisional)] := by
  have haside := h.aside_run hz hb hs
  have hend := h.regular.run hb
  rcases act_rollback m.id (some e) (q.run between) with ⟨reason, -, hf, hq⟩ | ⟨fault, hf, hq⟩
  · -- no move of the card is live after the failure, so it is where it is agreed to be
    have hspoken : e.fault? = none := hf
    rw [if_pos hspoken, hq]
    have hpledged := h.pledged (show Pledged card (ground card p z) p from ⟨z, hz, rfl⟩)
    have hpending := (live?_eq_some_iff.1 (haside.live.trans h.live)).1
    refine (pledged_rollback hend.ledger hend.keys (hpledged.aside haside) m.id reason).of_not_live
      (live?_of_not_pending (pendingMove_rollback hend.ledger (fun m' hm' => ?_) reason))
    rw [Option.some.inj (hm'.symm.trans hpending)]
  · have hsilent : e.fault? = some fault := hf
    rw [if_neg (by simp [hsilent]), hq,
      spots_congr (closes_giveUp hend.ledger m.id (some e)).columns card]
    exact haside.alone (h.shown hz)

/-- A card on the board is moved here and now, and in the meantime anything happens. The answer settles
the move iff it is a record or the request failed, unless the move was settled before; an answer that is
no record is an error and does nothing. A refusal is an error in any case, and if the card was shown once
and nothing concerned the move in the meantime, a refusal that can be put into words takes the card back
to where it was, or to where a live move of it that was under way before would have taken it back. A
refusal that cannot leaves it where the move had brought it. -/
theorem attempt_settles (board : Key) (before : List Act) (hb : WellPlaced before) {card : String}
    (hc : ((run { board } before).locate card).isSome) (now : Float) (target : String)
    (d : Directive) (a : Allocator) :
    ∃ p q n b m, p = run { board } before ∧ p.begin now card (.text target) d a = (.ok n, q, b) ∧
      Entries.get? n q.moves = some m ∧ m.card = card ∧ m.toStage = .text target ∧
      ∀ between, WellPlaced between → ∀ answer, ∃ result r,
        settle n answer (q.run between) = (result, r) ∧
          (Settled n card r ↔ Answered answer ∨ Settled n card (q.run between)) ∧
          (¬Answered answer → (∃ e, result = .error e) ∧ r = q.run between) ∧
          ∀ e, refusal? answer = some e → (∃ f, result = .error f) ∧
            ∀ z, p.spots card = [z] → Spared m q between →
              r.spots card =
                [if e.fault? = none then ground card p z else (m.toStage, .real m.provisional)] := by
  have hp := regular_run board hb
  generalize run { board } before = p at hc hp
  have hshown : p.spots card ≠ [] := by
    rw [ne_eq, ← locate_eq_none_iff_spots, ← ne_eq, ← Option.isSome_iff_ne_none]
    exact hc
  rcases sent_begin hp hshown now target d a with ⟨q, b, m, hbegin, hid, hsent⟩
  rcases hsent.regular.ledger.of_pendingMove (live?_eq_some_iff.1 hsent.live).1 with ⟨hrec, hcard, -⟩
  rw [← hid] at hbegin
  refine ⟨p, q, m.id, b, m, rfl, hbegin, hrec, hcard, hsent.stage,
    fun between hbetween answer => ?_⟩
  have hunanswered (hn : ¬Answered answer) :
      (∃ e, (settle m.id answer (q.run between)).1 = .error e) ∧
        (settle m.id answer (q.run between)).2 = q.run between := by
    rcases settle_of_unanswered hn m.id (q.run between) with ⟨e, hs⟩
    rw [hs]
    exact ⟨⟨e, rfl⟩, rfl⟩
  refine ⟨(settle m.id answer (q.run between)).1, (settle m.id answer (q.run between)).2, rfl, ?_,
    hunanswered, fun e he => ?_⟩
  · by_cases ha : Answered answer
    · -- the record is still there when the answer comes
      rcases (entered_run hsent.regular.toBooks hbetween).kept hrec with ⟨m', hm', hcard'⟩
      refine iff_of_true ?_ (.inl ha)
      rw [← hcard, ← hcard']
      exact settled_settle (hsent.regular.run hbetween).ledger hm' ha
    · rw [(hunanswered ha).2, or_iff_right ha]
  · rcases settle_of_refusal he m.id (q.run between) with ⟨f, hs⟩
    rw [hs]
    exact ⟨⟨f, rfl⟩, fun z hz hspared => hsent.spots_rollback hz hbetween hspared e⟩

/-- A card is moved on a board that was read once. -/
def underWay : List Act := oneRead ++ [.begin 0.0 "1" "open" { absolute := some 5.0 } {}]

/-- Another card is moved by someone. -/
def otherMoved : Value :=
  .object [("event", "card_moved"), ("card_id", "2"), ("stage_key", "open"),
    ("position", .real 7.0)]

/-- A move is not answered in time: the card is back where it was. It is answered with nothing: the move
is not settled, and the card stays where it was moved to. -/
theorem attempt_settles_unanswered :
    (∃ result r, settle 1 (.error .timedOut)
        ((run { board := "sales" } underWay).run [.hear otherMoved]) = (result, r) ∧
      Settled 1 "1" r ∧ (∃ e, result = .error e) ∧ r.spots "1" = [(.text "new", .real 1.0)]) ∧
    ∃ result r, settle 1 (.ok .null)
        ((run { board := "sales" } underWay).run [.hear otherMoved]) = (result, r) ∧
      ¬Settled 1 "1" r ∧ (∃ e, result = .error e) ∧ r.spots "1" = [(.text "open", .real 5.0)] := by
  have hshown : ((run { board := "sales" } oneRead).locate "1").isSome = true := by decide
  rcases attempt_settles "sales" oneRead wellPlaced_oneRead hshown 0.0 "open"
    { absolute := some 5.0 } {} with ⟨p, q, n, b, m, rfl, hbegin, -, hcard, -, hall⟩
  obtain rfl : 1 = n := by
    have hn := congrArg (fun o => o.1.toOption) hbegin
    exact Option.some.inj (Eq.trans (by decide) hn)
  obtain rfl : run { board := "sales" } underWay = q := congrArg (·.2.1) hbegin
  have hplaced : WellPlaced [.hear otherMoved] := by
    intro e he r v hr _ hv
    simp only [List.mem_singleton, Act.hear.injEq] at he
    subst he
    obtain rfl := Except.ok.inj hr
    obtain rfl := Option.some.inj hv
    exact ⟨_, rfl⟩
  have hspared : Spared m (run { board := "sales" } underWay) [.hear otherMoved] := by
    refine ⟨?_, trivial⟩
    rintro ⟨r, hr, ⟨-, v, hv, hvc⟩ | ⟨hevent, -⟩⟩
    · obtain rfl := Except.ok.inj hr
      obtain rfl := Option.some.inj hv
      rw [hcard] at hvc
      exact absurd hvc (by decide)
    · obtain rfl := Except.ok.inj hr
      exact absurd hevent (by decide)
  constructor
  · rcases hall [.hear otherMoved] hplaced (.error .timedOut) with
      ⟨result, r, hsettle, hsettled, -, hrefused⟩
    rcases hrefused .timedOut rfl with ⟨herror, hback⟩
    have hspoken : Failure.timedOut.fault? = none := rfl
    refine ⟨result, r, hsettle, hsettled.2 (.inl trivial), herror, ?_⟩
    rw [hback (.text "new", .real 1.0) (by decide +kernel) hspared, if_pos hspoken]
    decide +kernel
  · rcases hall [.hear otherMoved] hplaced (.ok .null) with
      ⟨result, r, hsettle, hsettled, hunanswered, -⟩
    have hnone : ¬Answered (.ok .null) := fun ⟨_, hr⟩ => nomatch hr
    rcases hunanswered hnone with ⟨herror, rfl⟩
    refine ⟨result, _, hsettle, fun hs => ?_, herror, by decide +kernel⟩
    -- the card still waits for the move
    exact ((hsettled.1 hs).resolve_left hnone).waiting "1" (by decide +kernel)

/-- The card is moved again before the answer. -/
def underWayTwice : List Act := underWay ++ [.begin 0.0 "1" "new" { absolute := some 6.0 } {}]

/-- A board that lists a card under two stages. -/
def listedTwice : Value :=
  .object [("cards_by_stage", .object [
    ("new", .list [.object [("card_id", "1"), ("position", .real 1.0)]]),
    ("open", .list [.object [("card_id", "1"), ("position", .real 2.0)]])])]

/-- An answer that is no record leaves the move unsettled, its card waiting and shown where it was moved
to, and a failure that cannot be put into words leaves the card there as well. If the card was under way
before, it does not come back to where it was before the call, and even less so if the earlier move
succeeds in the meantime; nor does it come back if the stage that it left was deactivated, and it does
not wait for nothing if an event in the meantime told a position that cannot be read. If the answer
commits to a stage that cannot be a key, the card is shown nowhere, and of a card that was listed twice
one tile stays at the target. -/
theorem attempt_astray :
    (((settle 1 (.ok .null) (run { board := "sales" } underWay)).2.pendingMove "1").map (·.state) =
        some .optimistic ∧
      (settle 1 (.ok .null) (run { board := "sales" } underWay)).1.toBool = false ∧
      (settle 1 (.ok .null) (run { board := "sales" } underWay)).2.spots "1" =
        [(.text "open", .real 5.0)]) ∧
      ((settle 1 (.error (.unspoken .malformed)) (run { board := "sales" } underWay)).2.spots "1" =
        [(.text "open", .real 5.0)]) ∧
      ((run { board := "sales" } underWay).spots "1" = [(.text "open", .real 5.0)] ∧
        (settle 2 (.error .timedOut) (run { board := "sales" } underWayTwice)).2.spots "1" =
          [(.text "new", .real 1.0)]) ∧
      ((settle 2 (.error .timedOut) (run { board := "sales" }
          (underWayTwice ++ [.confirm 1 (some "open") (some 7.0)]))).2.spots "1" =
        [(.text "open", .real 7.0)]) ∧
      ((settle 1 (.error .timedOut) (run { board := "sales" } (underWay ++ [.hear
          (.object [("event", "stage_deactivated"), ("stage_key", "new"),
            ("fallback_stage_key", "done")])]))).2.spots "1" = [(.text "open", .real 5.0)]) ∧
      (Entries.get? "1" (settle 1 (.ok (.object [])) (run { board := "sales" } (underWay ++ [.hear
          (.object [("event", "card_moved"), ("card_id", "1"), ("stage_key", "open"),
            ("position", .null)])]))).2.pending = some 1) ∧
      ((settle 1 (.ok (.object [("committed_stage_key", .list [.null]),
          ("committed_position", .real 5.0)])) (run { board := "sales" } underWay)).1.toBool = false ∧
        (settle 1 (.ok (.object [("committed_stage_key", .list [.null]),
          ("committed_position", .real 5.0)])) (run { board := "sales" } underWay)).2.spots "1" =
            []) ∧
      (settle 1 (.error .timedOut) (run { board := "sales" } [.refresh listedTwice,
          .begin 0.0 "1" "done" { absolute := some 5.0 } {}])).2.spots "1" =
        [(.text "new", .real 1.0), (.text "done", .real 5.0)] := by
  refine ⟨⟨?_, ?_, ?_⟩, ?_, ⟨?_, ?_⟩, ?_, ?_, ?_, ⟨?_, ?_⟩, ?_⟩
  all_goals decide +kernel

end Projection

end Kanban
