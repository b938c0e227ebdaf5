import Kanban.Proofs.Projection.Attempts
import Kanban.Proofs.Projection.Shape
import Kanban.Proofs.Projection.Wire

/-!
# Kanban.Proofs.Projection.Echoes — the answer to a move and its broadcast

The server answers the client that moved a card, and tells all clients of the move, this one
included. The two may come in any order, and the answer may be lost. On a view whose boards list no
card twice, a card with a live move is shown once, at the provisional place of the move; whichever of
the two comes first brings it to the committed place, and the other changes nothing.

* `Single`, `single_run` — what holds of views whose boards list no card twice.
* `act_move`, `Alike.run` — events about moves of other cards, on two views at once.
* `tracks_orders` — the answer and the broadcast, in all orders.
* `answer_and_echo` — the same with events about other cards around them.
-/

namespace Kanban

namespace Projection

variable {p q : Projection} {c card : String}

/-! ## Boards that list no card twice -/

/-- Reading a board lists no card twice. -/
def ListsOnce (payload : Value) : Prop :=
  ∀ board cs, readColumns board payload = .ok cs →
    (Entries.keys cs).Nodup ∧ ((cardsOf cs).map (·.id)).Nodup

/-- No card is shown twice, and a card with a live move is shown at the provisional place of the
move. -/
structure Single (p : Projection) : Prop extends Regular p where
  once : ∀ c, (p.spots c).length ≤ 1
  shown : ∀ c l, p.live? c = some l →
    (∃ s, l.toStage = .text s) ∧ p.spots c = [(l.toStage, .real l.provisional)]

theorem single_new (board : Key) : Single { board } where
  toRegular := regular_new board
  once := fun _ => Nat.zero_le _
  shown := by
    intro c l hl
    simp [live?, pendingMove] at hl

/-- What leaves a card alone. -/
theorem Aside.shown (h : Aside c p q) (hp : p.Single) {l : Move} (hl : q.live? c = some l) :
    (∃ s, l.toStage = .text s) ∧ q.spots c = [(l.toStage, .real l.provisional)] := by
  rcases hp.shown c l (h.live.symm.trans hl) with ⟨htext, hs⟩
  exact ⟨htext, h.alone hs⟩

theorem shown_begin (h : p.Single) (now : Float) (card target : String) (d : Directive)
    (a : Allocator) {l : Move} (hl : (p.act (.begin now card target d a)).live? c = some l) :
    (∃ s, l.toStage = .text s) ∧
      (p.act (.begin now card target d a)).spots c = [(l.toStage, .real l.provisional)] := by
  have ht := Value.isName_text target
  by_cases hc : c = card
  · subst hc
    by_cases hs : p.spots c = []
    · have hact : p.act (.begin now c target d a) = p := by
        simp only [act, begin_absent (locate_eq_none_iff_spots.2 hs)]
      rw [hact] at hl ⊢
      exact h.shown c l hl
    · -- the card was shown once, and is shown at the target now
      rcases sent_begin h.toRegular hs now target d a with ⟨q, b, m, hb, -, hsent⟩
      have hact : p.act (.begin now c target d a) = q := congrArg (·.2.1) hb
      rw [hact] at hl ⊢
      obtain rfl := Option.some.inj (hl.symm.trans hsent.live)
      have hone : (p.spots c).length = 1 := by
        have hle := h.once c
        have hpos := List.length_pos_iff.2 hs
        omega
      rcases List.length_eq_one_iff.1 hone with ⟨z, hz⟩
      exact ⟨⟨target, hsent.stage⟩, hsent.shown hz⟩
  · exact (aside_begin h.ledger h.keys h.numeric hc now ht d a).shown h hl

/-- A live move after a success goes where it went before, and its card is where it was. -/
theorem live?_confirm (h : p.Ledger) (hk : p.keys.Nodup) (n : Nat) (stage : Option Key) (x : Mark)
    {l : Move} (hl : (p.confirm n stage (some x)).live? c = some l) :
    ((p.confirm n stage (some x)).spots c).Perm (p.spots c) ∧
      ∃ l', p.live? c = some l' ∧ l'.toStage = l.toStage ∧ l'.provisional = l.provisional := by
  by_cases hn : ∀ m, Entries.get? n p.moves = some m → m.state = .optimistic → m.card ≠ c
  · have haside := aside_confirm h hk hn stage x
    exact ⟨haside.spots, l, haside.live.symm.trans hl, rfl, rfl⟩
  · -- the move is one of the card
    push Not at hn
    rcases hn with ⟨m, hm, ho, rfl⟩
    rcases confirm_cases h hk hm ho stage x with
      ⟨-, -, hlive⟩ | ⟨hcol, -, ⟨-, hlive⟩ | ⟨l', i, -, hl', hlive⟩⟩
    · rw [hlive, if_pos rfl] at hl
      simp at hl
    · exact ⟨.of_eq (spots_congr hcol _), l, (hlive _).symm.trans hl, rfl, rfl⟩
    · rw [hlive, if_pos rfl] at hl
      obtain rfl := Option.some.inj hl
      exact ⟨.of_eq (spots_congr hcol _), l', hl', rfl, rfl⟩

/-- What is shown of a move that is live after another one was closed. -/
theorem Closes.shown {n : Nat} (h : Closes n p q) (hp : p.Single) {l : Move}
    (hl : q.live? c = some l) :
    (∃ s, l.toStage = .text s) ∧ q.spots c = [(l.toStage, .real l.provisional)] := by
  have hlive := h.live hp.ledger c
  split at hlive
  · simp [hlive] at hl
  · exact (aside_of_columns h.columns hlive).shown hp hl

/-- No event makes a move live. -/
theorem live?_act_hear (h : p.Ledger) {e : Value} (he : Placed e) {l : Move}
    (hl : (p.act (.hear e)).live? c = some l) : p.live? c = some l := by
  have hfold {stage fallback : Key} (hf : (p.fold stage fallback).2.live? c = some l) :
      p.live? c = some l := by
    rw [live?_fold h] at hf
    exact (Option.filter_eq_some_iff.1 hf).1
  have hmoved {card : String} (hif : (if c = card then none else p.live? c) = some l) :
      p.live? c = some l := by
    split at hif
    · simp at hif
    · exact hif
  have key := heard e p
  generalize p.act (.hear e) = q at key hl
  cases key with
  | ignored => exact hl
  | unplaced card stage position r hr hm hpos f hf =>
    rcases he r position hr hm hpos with ⟨y, hy⟩
    simp [hy] at hf
  | lost card stage x =>
    rw [(unrecorded_lose card _).1.live?, live?_hear h] at hl
    exact hmoved hl
  | moved card stage x => exact hmoved ((live?_remoteMove h card stage x c).symm.trans hl)
  | emptied => exact hfold hl
  | folded => exact hfold hl

theorem shown_hear (h : p.Single) {e : Value} (he : Placed e) {l : Move}
    (hl : (p.act (.hear e)).live? c = some l) :
    (∃ s, l.toStage = .text s) ∧
      (p.act (.hear e)).spots c = [(l.toStage, .real l.provisional)] := by
  have hbefore := live?_act_hear h.ledger he hl
  rcases h.shown c l hbefore with ⟨⟨s, hstage⟩, hs⟩
  obtain rfl : l.card = c := (h.ledger.of_pendingMove (live?_eq_some_iff.1 hbefore).1).2.1
  have hname : l.toStage.isName = true := by rw [hstage]; rfl
  rcases aside_or_ended h.toRegular hbefore hs hname he with haside | ⟨hended, -⟩
  · exact haside.shown h hl
  · simp [hended] at hl

theorem shown_rollback (h : p.Single) (n : Nat) (error : Option Reason) {l : Move}
    (hl : (p.rollback n error).live? c = some l) :
    (∃ s, l.toStage = .text s) ∧
      (p.rollback n error).spots c = [(l.toStage, .real l.provisional)] := by
  by_cases hn : ∀ m, Entries.get? n p.moves = some m → p.live? c ≠ some m
  · exact (aside_rollback h.ledger h.keys hn error).shown h hl
  · -- the live move has failed
    push Not at hn
    rcases hn with ⟨m, hm, hlive⟩
    have hpending := (live?_eq_some_iff.1 hlive).1
    have hnone : (p.rollback n error).pendingMove c = none := by
      refine pendingMove_rollback h.ledger (fun m' hm' => ?_) error
      rw [hpending] at hm'
      rw [← Option.some.inj hm', (h.ledger.numbered hm).1]
    simp [live?_of_not_pending hnone] at hl

theorem single_act (h : p.Single) (a : Act) (ha : ∀ e, a = .hear e → Placed e)
    (hr : ∀ payload, a = .refresh payload → ListsOnce payload) : (p.act a).Single where
  toRegular := regular_act h.toRegular a ha
  once := by
    intro c
    cases a with
    | refresh payload =>
      rcases refreshed payload p with ⟨board, stages, hq⟩ | ⟨board, stages, cs, hcs, hq⟩
      · rw [hq]
        exact h.once c
      · rw [hq]
        rcases hr payload rfl board cs hcs with ⟨hkeys, hids⟩
        refine spots_le_one ?_ c
        have htiles := (tiles_refresh hkeys { p with board, stages }).map (·.id)
        rw [List.map_map] at htiles
        exact htiles.nodup_iff.2 hids
    | _ => exact (length_spots_act h.toRegular _ ha rfl c).trans (h.once c)
  shown := by
    intro c l hl
    cases a with
    | begin now card target d a => exact shown_begin h now card target d a hl
    | confirm n stage position =>
      rw [act_confirm] at hl ⊢
      cases position with
      | none => exact (closes_confirm h.ledger n (namedStage stage)).shown h hl
      | some x =>
        rcases live?_confirm h.ledger h.keys n (namedStage stage) (.real x) hl with
          ⟨hperm, l', hl', hstage, hx⟩
        rw [← hstage, ← hx]
        rcases h.shown c l' hl' with ⟨htext, hs⟩
        rw [hs] at hperm
        exact ⟨htext, List.perm_singleton.1 hperm⟩
    | rollback n error =>
      rcases act_rollback n error p with ⟨reason, -, -, hq⟩ | ⟨fault, -, hq⟩
      · rw [hq] at hl ⊢
        exact shown_rollback h n reason hl
      · rw [hq] at hl ⊢
        exact (closes_giveUp h.ledger n error).shown h hl
    | hear e => exact shown_hear h (ha e rfl) hl
    | refresh payload =>
      rcases refreshed payload p with ⟨board, stages, hq⟩ | ⟨board, stages, cs, -, hq⟩
      · rw [hq] at hl ⊢
        exact h.shown c l hl
      · have hread : Ledger { p with board, stages } := h.ledger.congr rfl rfl rfl
        rw [hq, live?_refresh hread] at hl
        simp at hl

/-- Runs in which no board that is read lists a card twice. -/
theorem single_run (board : Key) {acts : List Act} (ha : WellPlaced acts)
    (hr : ∀ payload, .refresh payload ∈ acts → ListsOnce payload) :
    (run { board } acts).Single := by
  induction acts using List.reverseRecOn with
  | nil => exact single_new board
  | append_singleton acts a ih =>
    rw [run_concat]
    refine single_act (ih ha.of_append.1 fun payload hp => ?_) a (fun e he => ?_)
      fun payload hp => ?_
    · exact hr payload (List.mem_append_left _ hp)
    · exact ha e (by simp [he])
    · exact hr payload (by simp [hp])

/-! ## Events about moved cards -/

/-- Whether an event is about a move of a card. -/
def MoveOf (card : String) (e : Value) : Prop :=
  ∃ r v, e.record = .ok r ∧ r.getD "event" .null = .text "card_moved" ∧
    Entries.get? "card_id" r = some v ∧ v.shown = card

open Operation in
/-- What an event about a move of a card does to every view: nothing, or the card is moved, or it is
lost because the stage cannot be a key. -/
theorem act_move {e : Value} (h : MoveOf c e) (he : Placed e) :
    (∀ p : Projection, p.act (.hear e) = p) ∨ ∃ stage x, ∀ p : Projection, p.act (.hear e) =
      if !stage.isName && (p.locate c).isSome then (p.hear c stage (some x)).lose c
      else (p.remoteMove c stage x).2.calmed := by
  rcases h with ⟨r, v, hr, hm, hv, rfl⟩
  have hcard : r.need "card_id" = .ok v := by simp [Entries.need, hv]
  -- the name of the card is there, and then the stage and the position are read
  have hread (p : Projection) : p.act (.hear e) = ((do
      let stage ← Failure.ofReading (r.need "stage_key")
      let position ← Failure.ofReading (r.need "position")
      let id ← Failure.ofReading v.toText
      hearMove id stage position : Op Bool) p).2 := by
    change (applyEvent e p).2 = _
    unfold applyEvent
    rw [state_read, hr]
    simp only [hm]
    rw [state_read, hcard]
  cases hs : r.need "stage_key" with
  | error f =>
    left
    intro p
    rw [hread, state_read, hs]
  | ok stage =>
    cases hp : r.need "position" with
    | error f =>
      left
      intro p
      rw [hread, state_read, hs]
      dsimp only
      rw [state_read, hp]
    | ok position =>
      cases hid : v.toText with
      | error f =>
        left
        intro p
        rw [hread, state_read, hs]
        dsimp only
        rw [state_read, hp]
        dsimp only
        rw [state_read, hid]
      | ok id =>
        right
        obtain rfl := Value.shown_of_toText hid
        rcases he r position hr hm (get?_of_need hp) with ⟨x, hx⟩
        refine ⟨stage, x, fun p => ?_⟩
        rw [hread, state_read, hs]
        dsimp only
        rw [state_read, hp]
        dsimp only
        rw [state_read, hid]
        dsimp only
        rw [state_hearMove, hx]

theorem single_hear (h : p.Single) {e : Value} (he : Placed e) : (p.act (.hear e)).Single :=
  single_act h (.hear e) (fun _ h' => Act.hear.inj h' ▸ he) (by simp)

/-- A card that is shown at most once is shown where it was, if at all. -/
theorem Single.eq_of_perm (h : p.Single) (hp : (q.spots c).Perm (p.spots c)) :
    q.spots c = p.spots c := by
  have hle := h.once c
  match hs : p.spots c, hle with
  | [], _ => exact List.perm_nil.1 (hs ▸ hp)
  | [z], _ => exact List.perm_singleton.1 (hs ▸ hp)

theorem spots_remoteMove (h : p.Single) (c : String) (stage : Key) (x : Float) :
    (p.remoteMove c stage x).2.spots c = (p.spots c).map (fun _ => (stage, .real x)) ∧
      ∀ d, d ≠ c → (p.remoteMove c stage x).2.spots d = p.spots d := by
  have hcol := (booked_hear h.ledger c stage x).2.1
  have hcar : Carried c (stage, .real x) p (p.remoteMove c stage x).2 :=
    (carried_place (keys_congr hcol ▸ h.keys) c stage (.real x)).after hcol
  refine ⟨?_, fun d hd => h.eq_of_perm (hcar.others d hd)⟩
  have hle := h.once c
  match hs : p.spots c, hle with
  | [], _ =>
    have hlen := hcar.length c
    rw [hs] at hlen
    exact List.length_eq_zero_iff.1 hlen
  | [z], _ => exact hcar.alone hs

theorem spots_hear_lose (h : p.Single) (c : String) (stage : Key) (x : Float) :
    ((p.hear c stage (some x)).lose c).spots c = [] ∧
      ∀ d, d ≠ c → ((p.hear c stage (some x)).lose c).spots d = p.spots d := by
  have hcol := (booked_hear h.ledger c stage x).2.1
  generalize p.hear c stage (some x) = q at hcol
  have hk : q.keys.Nodup := keys_congr hcol ▸ h.keys
  refine ⟨?_, fun d hd => h.eq_of_perm ?_⟩
  · unfold lose
    cases hl : q.locate c with
    | none => exact locate_eq_none_iff_spots.1 hl
    | some loc =>
      rcases loc with ⟨k, i⟩
      rcases tileAt_locate hk hl with ⟨t, ht, hid⟩
      -- one tile of the card is taken away, and there is no other
      have hlen := (spots_takeOut hk ht c).length_eq
      have hle := h.once c
      rw [if_pos hid, List.length_append, spots_congr hcol, List.length_singleton] at hlen
      change (q.takeOut (k, i)).spots c = []
      exact List.length_eq_zero_iff.1 (by omega)
  · exact spots_congr hcol d ▸ (spots_lose hk c).2.1 d hd

/-- Where a card is shown after an event about a move of it depends on where it was shown before, and on
nothing else. -/
theorem spots_move {e : Value} (h : MoveOf c e) (he : Placed e) :
    ∃ f : List Spot → List Spot, ∀ p : Projection, p.Single →
      (p.act (.hear e)).spots c = f (p.spots c) := by
  rcases act_move h he with hid | ⟨stage, x, hact⟩
  · exact ⟨id, fun p _ => by rw [hid, id]⟩
  · cases hn : stage.isName with
    | true =>
      refine ⟨List.map fun _ => (stage, .real x), fun p hp => ?_⟩
      rw [hact, hn]
      exact (spots_remoteMove hp c stage x).1
    | false =>
      refine ⟨fun _ => [], fun p hp => ?_⟩
      rw [hact, hn]
      cases hl : p.locate c with
      | none =>
        refine (spots_remoteMove hp c stage x).1.trans ?_
        rw [locate_eq_none_iff_spots.1 hl, List.map_nil]
      | some loc => exact (spots_hear_lose hp c stage x).1

/-- An event about a move of a card changes no other card and no move of another card. -/
theorem other_move (hp : p.Single) {e : Value} (h : MoveOf c e) (he : Placed e) (hc : card ≠ c) :
    (p.act (.hear e)).spots card = p.spots card ∧
      (p.act (.hear e)).pendingMove card = p.pendingMove card := by
  rcases act_move h he with hid | ⟨stage, x, hact⟩
  · rw [hid]
    exact ⟨rfl, rfl⟩
  · have hpending := pendingMove_hear_of_ne hp.ledger hc stage x
    rw [hact]
    split
    · refine ⟨(spots_hear_lose hp c stage x).2 card hc, Eq.trans ?_ hpending⟩
      have hu := (unrecorded_lose c (p.hear c stage (some x))).1
      exact pendingMove_congr hu.moves hu.pending card
    · refine ⟨(spots_remoteMove hp c stage x).2 card hc, Eq.trans ?_ hpending⟩
      have hu := unrecorded_place c stage (.real x) (p.hear c stage (some x))
      exact pendingMove_congr hu.moves hu.pending card

/-- Events about moves of other cards than one. -/
def Elsewhere (card : String) (es : List Value) : Prop :=
  ∀ e ∈ es, Placed e ∧ ∃ c, card ≠ c ∧ MoveOf c e

theorem Elsewhere.of_append {es fs : List Value} (h : Elsewhere card (es ++ fs)) :
    Elsewhere card es ∧ Elsewhere card fs :=
  ⟨fun e he => h e (List.mem_append_left _ he), fun e he => h e (List.mem_append_right _ he)⟩

theorem Elsewhere.run {es : List Value} (h : Elsewhere card es) (hp : p.Single) :
    (p.run (es.map .hear)).Single ∧ (p.run (es.map .hear)).spots card = p.spots card ∧
      (p.run (es.map .hear)).pendingMove card = p.pendingMove card := by
  induction es generalizing p with
  | nil => exact ⟨hp, rfl, rfl⟩
  | cons e es ih =>
    rcases h e List.mem_cons_self with ⟨he, c, hc, hm⟩
    rcases other_move hp hm he hc with ⟨hspots, hpending⟩
    rcases ih (fun e' he' => h e' (List.mem_cons_of_mem _ he')) (single_hear hp he) with
      ⟨hs, hspots', hpending'⟩
    exact ⟨hs, hspots'.trans hspots, hpending'.trans hpending⟩

/-- Two views show every card but one at the same places. -/
structure Alike (card : String) (p q : Projection) : Prop where
  left : p.Single
  right : q.Single
  others : ∀ c, c ≠ card → q.spots c = p.spots c

/-- They do so whatever they hear of other cards. -/
theorem Alike.run (h : Alike card p q) {es : List Value} (he : Elsewhere card es) :
    Alike card (p.run (es.map .hear)) (q.run (es.map .hear)) := by
  induction es generalizing p q with
  | nil => exact h
  | cons e es ih =>
    rcases he e List.mem_cons_self with ⟨hplaced, d, -, hm⟩
    refine ih ⟨single_hear h.left hplaced, single_hear h.right hplaced, fun c hc => ?_⟩
      fun e' he' => he e' (List.mem_cons_of_mem _ he')
    by_cases hd : c = d
    · subst hd
      rcases spots_move hm hplaced with ⟨f, hf⟩
      rw [hf q h.right, hf p h.left, h.others c hc]
    · rw [(other_move h.right hm hplaced hd).1, (other_move h.left hm hplaced hd).1, h.others c hc]

/-! ## The answer and the broadcast -/

/-- The broadcast of a committed move. -/
def echo (card stage : String) (x : Float) : Act := .hear (Notice.moved card stage x).toValue

theorem act_echo (card stage : String) (x : Float) (p : Projection) :
    p.act (echo card stage x) = (p.remoteMove card (.text stage) x).2.calmed := by
  have hread : applyEvent (Notice.moved card stage x).toValue =
      hearMove card (.text stage) (.real x) := rfl
  change (applyEvent _ p).2 = _
  rw [hread, state_hearMove]
  simp [Value.isName]

theorem placed_echo (card stage : String) (x : Float) :
    Placed (Notice.moved card stage x).toValue := by
  intro r v hr _ hv
  obtain rfl := Except.ok.inj hr
  obtain rfl := Option.some.inj hv
  exact ⟨x, rfl⟩

variable {n : Nat} {m : Move} {s : String}

/-- The answer does what the broadcast does. -/
theorem act_answer (h : p.Single) (hm : p.pendingMove card = some m) (hs : m.superseded = false)
    (hstage : m.toStage = .text s) (x : Float) :
    p.act (.confirm m.id (some s) (some x)) = p.act (echo card s x) := by
  rcases h.ledger.of_pendingMove hm with ⟨hid, hcard, ho, hr⟩
  have hname : (namedStage (some s)).getD m.toStage = .text s := by
    rw [hstage]
    by_cases hempty : s = "" <;> simp [namedStage, Option.filter, hempty]
  rcases confirm_eq h.ledger hid ho (namedStage (some s)) (.real x) with ⟨q, hq, hconfirm⟩
  have hhear : p.hear card (.text s) (some x) = q := by
    rw [hq, hear, hm]
    simp only [ho, ne_eq, not_true, if_false, hstage, hs, and_self, if_true]
    rfl
  rw [act_confirm, Option.map_some, hconfirm, hr, hs, hname, hcard, act_echo, remoteMove, hhear]
  rfl

/-- A move of a card is settled, and the card waits for nothing. -/
structure Over (card : String) (n : Nat) (p : Projection) : Prop extends Single p where
  none : p.pendingMove card = none
  settled : Settled n card p

/-- The answer changes nothing any more. -/
theorem Over.act_confirm (h : Over card n p) (stage : Option String) (position : Option Float) :
    p.act (.confirm n stage position) = p := by
  rcases h.settled.record with ⟨m, hm, -, hs⟩
  exact (act_outcome_settled h.calm hm hs).1 stage position

theorem Over.act_rollback (h : Over card n p) (error : Option Failure) :
    p.act (.rollback n error) = p := by
  rcases h.settled.record with ⟨m, hm, -, hs⟩
  exact (act_outcome_settled h.calm hm hs).2 error

/-- No event unsettles a move. -/
theorem Over.hear (h : Over card n p) {e : Value} (he : Placed e)
    (hn : (p.act (.hear e)).pendingMove card = .none) : Over card n (p.act (.hear e)) where
  toSingle := single_hear h.toSingle he
  none := hn
  settled := by
    rcases h.settled.record with ⟨m, hm, rfl, hs⟩
    have hact := entered_act h.toBooks (.hear e) fun _ h' => Act.hear.inj h' ▸ he
    exact settled_of_state hact.ledger (hact.final hm hs) hs

theorem Over.run (h : Over card n p) {es : List Value} (he : Elsewhere card es) :
    Over card n (p.run (es.map .hear)) := by
  induction es generalizing p with
  | nil => exact h
  | cons e es ih =>
    rcases he e List.mem_cons_self with ⟨hplaced, c, hc, hm⟩
    refine ih (h.hear hplaced ?_) fun e' he' => he e' (List.mem_cons_of_mem _ he')
    exact (other_move h.toSingle hm hplaced hc).2.trans h.none

theorem Over.echo (h : Over card n p) (s : String) (x : Float) :
    Over card n (p.act (Projection.echo card s x)) := by
  refine h.hear (placed_echo card s x) ?_
  refine (congrArg (Projection.pendingMove card) (act_echo card s x p)).trans ?_
  have hhear : p.hear card (.text s) (some x) = p := by simp [Projection.hear, h.none]
  have hu := unrecorded_place card (.text s) (.real x) p
  rw [remoteMove, hhear]
  exact (pendingMove_congr hu.moves hu.pending card).trans h.none

/-- The broadcast settles the move, as the answer does. -/
theorem over_echo (h : p.Single) (hm : p.pendingMove card = some m) (hs : m.superseded = false)
    (hstage : m.toStage = .text s) (x : Float) : Over card m.id (p.act (echo card s x)) where
  toSingle := single_hear h (placed_echo card s x)
  none := by
    rw [← act_answer h hm hs hstage, act_confirm]
    exact pendingMove_confirm h.ledger hm _ _
  settled := by
    rw [← act_answer h hm hs hstage, act_confirm]
    rcases h.ledger.of_pendingMove hm with ⟨hid, rfl, -⟩
    exact (settled_confirm h.ledger hid _ _).unrecorded ⟨rfl, rfl, rfl⟩

theorem over_rollback (h : p.Single) (hm : p.pendingMove card = some m) (error : Option Failure) :
    Over card m.id (p.act (.rollback m.id error)) where
  toSingle := single_act h _ (by simp) (by simp)
  none := by
    refine pendingMove_act_rollback h.ledger (fun m' hm' => ?_) error
    rw [Option.some.inj (hm'.symm.trans hm)]
  settled := by
    rcases h.ledger.of_pendingMove hm with ⟨hid, rfl, -⟩
    exact settled_act_rollback h.ledger hid error

/-- The failure of a move changes no place of another card, and its own card is shown as often as
before. -/
theorem spots_act_rollback (h : p.Single) (hm : p.pendingMove card = some m)
    (error : Option Failure) :
    (∀ c, c ≠ card → (p.act (.rollback m.id error)).spots c = p.spots c) ∧
      ((p.act (.rollback m.id error)).spots card).length = (p.spots card).length := by
  rcases h.ledger.of_pendingMove hm with ⟨hid, hcard, -⟩
  have hsame {q : Projection} (hcol : q.columns = p.columns) :
      (∀ c, c ≠ card → q.spots c = p.spots c) ∧ (q.spots card).length = (p.spots card).length :=
    ⟨fun c _ => spots_congr hcol c, congrArg List.length (spots_congr hcol card)⟩
  rcases act_rollback m.id error p with ⟨reason, -, -, hq⟩ | ⟨fault, -, hq⟩
  · rw [hq]
    rcases rollback_cases h.ledger h.keys m.id reason with ⟨m', hm', -, hcar, -⟩ | ⟨-, hcol, -⟩
    · obtain rfl := Option.some.inj (hid.symm.trans hm')
      exact ⟨fun c hc => h.eq_of_perm (hcar.others c (hcard ▸ hc)), hcar.length card⟩
    · exact hsame hcol
  · rw [hq]
    exact hsame (closes_giveUp h.ledger m.id error).columns

/-! ## The broadcast, again -/

/-- A card is placed in a column that is in order then. -/
theorem arrange_column_place (hk : p.keys.Nodup) (hc : p.spots card ≠ []) (stage : Key)
    (x : Mark) :
    arrange ((p.place card stage x).column stage) = (p.place card stage x).column stage := by
  have hresort (r : Projection) (ts : List Tile) :
      arrange (((r.setColumn stage ts).resort stage).column stage) =
        ((r.setColumn stage ts).resort stage).column stage := by
    rw [column_resort_setColumn, if_pos rfl, arrange_arrange]
  unfold place
  cases hl : p.locate card with
  | none => exact absurd (locate_eq_none_iff_spots.1 hl) hc
  | some loc =>
    rcases loc with ⟨k, i⟩
    rcases tileAt_locate hk hl with ⟨t, ht, -⟩
    simp only [ht]
    split
    · exact hresort _ _
    · exact hresort _ _

/-- A card that is where it is to be placed, in a column in order, is not moved. -/
theorem place_again (hk : p.keys.Nodup) (hj : p.jumbled = false) {stage : Key} {x : Mark}
    (hs : p.spots card = [(stage, x)]) (ha : arrange (p.column stage) = p.column stage) :
    (p.place card stage x).calmed = p := by
  cases hl : p.locate card with
  | none => simp [locate_eq_none_iff_spots.1 hl] at hs
  | some loc =>
    rcases loc with ⟨k, i⟩
    rcases tileAt_locate hk hl with ⟨t, ht, hid⟩
    -- the tile that is found is the one that is shown
    have hmem : (k, t.position) ∈ p.spots card := by
      have hperm := spots_takeOut hk ht card
      rw [if_pos hid] at hperm
      exact hperm.mem_iff.2 List.mem_cons_self
    rw [hs, List.mem_singleton, Prod.mk.injEq] at hmem
    rcases hmem with ⟨rfl, rfl⟩
    have hset : (p.column k).set i { t with position := t.position } = p.column k := by
      rcases List.getElem?_eq_some_iff.1 ht with ⟨hi, hti⟩
      rw [← hti]
      exact List.set_getElem_self hi
    have hcolumns : Entries.put k (p.column k) p.columns = p.columns := by
      rcases column_mem (List.mem_of_getElem? ht) with ⟨ts, hget, -⟩
      rw [column, hget]
      exact Entries.put_of_get? hget
    have hplace : p.place card k t.position = (p.setColumn k (p.column k)).resort k := by
      unfold place
      rw [hl]
      simp only [ht, if_true, hset]
    have hcol := columns_resort_setColumn k (p.column k) p
    rw [ha, hcolumns] at hcol
    rw [hplace]
    change { p with
      columns := ((p.setColumn k (p.column k)).resort k).columns, jumbled := false } = p
    rw [hcol, ← hj]

/-- The broadcast changes nothing when it comes again. -/
theorem act_echo_again (h : p.Single) (hm : p.pendingMove card = some m) (hs : m.superseded = false)
    (hstage : m.toStage = .text s) (x : Float) :
    (p.act (echo card s x)).act (echo card s x) = p.act (echo card s x) := by
  have hover := over_echo h hm hs hstage x
  have hshown := (h.shown card m (live?_eq_some_iff.2 ⟨hm, hs⟩)).2
  have hspots : (p.act (echo card s x)).spots card = [(.text s, .real x)] := by
    rw [act_echo]
    refine (spots_remoteMove h card (.text s) x).1.trans ?_
    rw [hshown, List.map_singleton]
  have hcol := (booked_hear h.ledger card (.text s) x).2.1
  have harrange : arrange ((p.act (echo card s x)).column (.text s)) =
      (p.act (echo card s x)).column (.text s) := by
    rw [act_echo]
    refine arrange_column_place (keys_congr hcol ▸ h.keys) ?_ (.text s) (.real x)
    rw [spots_congr hcol, hshown]
    simp
  generalize p.act (echo card s x) = q at hover hspots harrange
  rw [act_echo, remoteMove]
  have hhear : q.hear card (.text s) (some x) = q := by simp [hear, hover.none]
  rw [hhear]
  exact place_again hover.keys hover.calm hspots harrange

/-! ## Both, with other events around them -/

/-- The move of a card is over, the card is shown once, and all other cards are where another view
shows them. -/
structure Tracks (card : String) (n : Nat) (p q : Projection) : Prop extends Over card n q where
  one : (q.spots card).length = 1
  alike : Alike card p q

theorem Tracks.run (h : Tracks card n p q) {es : List Value} (he : Elsewhere card es) :
    Tracks card n (p.run (es.map .hear)) (q.run (es.map .hear)) where
  toOver := h.toOver.run he
  one := by rw [(he.run h.toSingle).2.1, h.one]
  alike := h.alike.run he

/-- The broadcast brings the card to the place that it tells. -/
theorem Tracks.echo (h : Tracks card n p q) (s : String) (x : Float) :
    Tracks card n p (q.act (Projection.echo card s x)) ∧
      (q.act (Projection.echo card s x)).spots card = [(.text s, .real x)] := by
  rcases spots_remoteMove h.toSingle card (.text s) x with ⟨hown, hothers⟩
  have hover := h.toOver.echo s x
  rw [act_echo] at hover ⊢
  rcases List.length_eq_one_iff.1 h.one with ⟨z, hz⟩
  rw [hz] at hown
  refine ⟨⟨hover, congrArg List.length hown, h.alike.left, hover.toSingle, fun c hc => ?_⟩, hown⟩
  exact (hothers c hc).trans (h.alike.others c hc)

/-- The first of the two, on a view on which the move is live. -/
theorem tracks_echo (h : p.Single) (hm : p.pendingMove card = some m) (hs : m.superseded = false)
    (hstage : m.toStage = .text s) (x : Float) :
    Tracks card m.id p (p.act (echo card s x)) ∧
      (p.act (echo card s x)).spots card = [(.text s, .real x)] := by
  rcases spots_remoteMove h card (.text s) x with ⟨hown, hothers⟩
  have hover := over_echo h hm hs hstage x
  rw [(h.shown card m (live?_eq_some_iff.2 ⟨hm, hs⟩)).2] at hown
  rw [act_echo] at hover ⊢
  exact ⟨⟨hover, congrArg List.length hown, h, hover.toSingle, hothers⟩, hown⟩

theorem tracks_rollback (h : p.Single) (hm : p.pendingMove card = some m)
    (hs : m.superseded = false) (error : Option Failure) :
    Tracks card m.id p (p.act (.rollback m.id error)) := by
  have hover := over_rollback h hm error
  rcases spots_act_rollback h hm error with ⟨hothers, hone⟩
  rw [(h.shown card m (live?_eq_some_iff.2 ⟨hm, hs⟩)).2] at hone
  exact ⟨hover, hone, h, hover.toSingle, hothers⟩

/-- The orders in which the broadcast of a move and its answer, or the news that the answer was lost,
may come. -/
def orders (card s : String) (n : Nat) (x : Float) (error : Option Failure) : List (Act × Act) :=
  [(.confirm n (some s) (some x), echo card s x), (echo card s x, .confirm n (some s) (some x)),
    (echo card s x, .rollback n error), (.rollback n error, echo card s x)]

/-- In every order the second of the two leaves the card where the broadcast tells. -/
theorem tracks_orders (h : p.Single) (hm : p.pendingMove card = some m) (hs : m.superseded = false)
    (hstage : m.toStage = .text s) (x : Float) (error : Option Failure) {first second : Act}
    (ho : (first, second) ∈ orders card s m.id x error) {es : List Value}
    (he : Elsewhere card es) :
    Tracks card m.id (p.run (es.map .hear)) (((p.act first).run (es.map .hear)).act second) ∧
      (((p.act first).run (es.map .hear)).act second).spots card = [(.text s, .real x)] := by
  rcases tracks_echo h hm hs hstage x with ⟨hechoed, hspots⟩
  have hkept := (he.run hechoed.toSingle).2.1.trans hspots
  simp only [orders, List.mem_cons, Prod.mk.injEq, List.not_mem_nil, or_false] at ho
  rcases ho with ⟨rfl, rfl⟩ | ⟨rfl, rfl⟩ | ⟨rfl, rfl⟩ | ⟨rfl, rfl⟩
  · rw [act_answer h hm hs hstage]
    exact (hechoed.run he).echo s x
  · rw [(hechoed.run he).act_confirm]
    exact ⟨hechoed.run he, hkept⟩
  · rw [(hechoed.run he).act_rollback]
    exact ⟨hechoed.run he, hkept⟩
  · exact ((tracks_rollback h hm hs error).run he).echo s x

/-- On a view whose boards list no card twice a card is under way, and no event has overridden its move.
The answer and the broadcast come in any order, or the broadcast and the news that the answer was
lost do, and around them events about moves of other cards: in the end the card is where the broadcast
told, it waits for nothing, and every other card is where those events alone would have brought it.
If nothing else comes, the answer changes nothing of what the broadcast does, before it or after it, and
the news that the answer was lost changes nothing after it. -/
theorem answer_and_echo {board : Key} {acts : List Act} (ha : WellPlaced acts)
    (hr : ∀ payload, .refresh payload ∈ acts → ListsOnce payload) {card : String} {m : Move}
    (hm : (run { board } acts).pendingMove card = some m) (hs : m.superseded = false) (x : Float)
    (error : Option Failure) :
    ∃ p s, p = run { board } acts ∧ m.toStage = .text s ∧
      (∀ first second, (first, second) ∈ orders card s m.id x error →
        ∀ before between after, Elsewhere card (before ++ between ++ after) →
          ∃ q, q = p.run (before.map .hear ++ [first] ++ between.map .hear ++ [second] ++
              after.map .hear) ∧
            q.spots card = [(.text s, .real x)] ∧ q.pendingMove card = none ∧
            ∀ c, c ≠ card → q.spots c = (p.run ((before ++ between ++ after).map .hear)).spots c) ∧
      p.run [.confirm m.id (some s) (some x), echo card s x] = p.run [echo card s x] ∧
      p.run [echo card s x, .confirm m.id (some s) (some x)] = p.run [echo card s x] ∧
      p.run [echo card s x, .rollback m.id error] = p.run [echo card s x] := by
  have h := single_run board ha hr
  generalize run { board } acts = p at h hm
  rcases (h.shown card m (live?_eq_some_iff.2 ⟨hm, hs⟩)).1 with ⟨s, hstage⟩
  have hover := over_echo h hm hs hstage x
  refine ⟨p, s, rfl, hstage, fun first second ho before between after he => ?_, ?_,
    hover.act_confirm _ _, hover.act_rollback _⟩
  · rcases he.of_append with ⟨hearlier, hafter⟩
    rcases hearlier.of_append with ⟨hbefore, hbetween⟩
    refine ⟨_, rfl, ?_⟩
    -- the move is still live when the first of the two comes
    rcases hbefore.run h with ⟨hsingle, -, hkept⟩
    rcases tracks_orders hsingle (hkept.trans hm) hs hstage x error ho hbetween with
      ⟨htracks, hspots⟩
    have hend := htracks.run hafter
    simp only [run_append, List.map_append]
    exact ⟨(hafter.run htracks.toSingle).2.1.trans hspots, hend.none, hend.alike.others⟩
  · change (p.act (.confirm m.id (some s) (some x))).act (echo card s x) = p.act (echo card s x)
    rw [act_answer h hm hs hstage, act_echo_again h hm hs hstage]

/-- A board with two cards is read, and one of them is moved. -/
def oneUnderWay : List Act := [.refresh twoCards, .begin 0.0 "1" "open" { absolute := some 5.0 } {}]

theorem listsOnce_oneUnderWay : ∀ payload, .refresh payload ∈ oneUnderWay → ListsOnce payload := by
  intro payload hp board cs hcs
  simp only [oneUnderWay, List.mem_cons, Act.refresh.injEq, reduceCtorEq, List.not_mem_nil,
    or_false] at hp
  subst hp
  obtain rfl := Except.ok.inj ((readColumns_twoCards board).symm.trans hcs)
  exact ⟨by simp, by simp [cardsOf]⟩

/-- Another card is moved by someone, and then the broadcast comes before the answer. -/
theorem answer_and_echo_oneUnderWay :
    ∃ q, q = (run { board := "sales" } oneUnderWay).run
        [.hear otherMoved, echo "1" "open" 6.0, .confirm 1 (some "open") (some 6.0)] ∧
      q.spots "1" = [(.text "open", .real 6.0)] ∧ q.pendingMove "1" = none ∧
      q.spots "2" = [(.text "open", .real 7.0)] := by
  have hplaced : WellPlaced oneUnderWay := by
    intro e he
    simp [oneUnderWay] at he
  have hsome : ((run { board := "sales" } oneUnderWay).pendingMove "1").isSome = true := by decide
  rcases Option.isSome_iff_exists.1 hsome with ⟨m, hm⟩
  have hrecord : ((run { board := "sales" } oneUnderWay).pendingMove "1").map
      (fun m => (m.id, m.superseded, m.toStage)) = some (1, false, .text "open") := by decide
  rw [hm, Option.map_some, Option.some.injEq, Prod.mk.injEq, Prod.mk.injEq] at hrecord
  rcases hrecord with ⟨hid, hs, hstage⟩
  have helse : Elsewhere "1" ([otherMoved] ++ [] ++ []) := by
    intro e he
    simp only [List.append_nil, List.mem_singleton] at he
    subst he
    refine ⟨fun r v hr _ hv => ?_, "2", by decide, _, "2", rfl, rfl, rfl, rfl⟩
    obtain rfl := Except.ok.inj hr
    obtain rfl := Option.some.inj hv
    exact ⟨_, rfl⟩
  rcases answer_and_echo hplaced listsOnce_oneUnderWay hm hs 6.0 none with ⟨p, s, rfl, hs', hall, -⟩
  obtain rfl : "open" = s := Value.text.inj (hstage.symm.trans hs')
  rw [hid] at hall
  rcases hall (echo "1" "open" 6.0) (.confirm 1 (some "open") (some 6.0)) (by simp [orders])
      [otherMoved] [] [] helse with ⟨q, rfl, hspots, hpending, hothers⟩
  refine ⟨_, rfl, hspots, hpending, (hothers "2" (by decide)).trans ?_⟩
  decide +kernel

end Projection

end Kanban
