import Kanban.Client
import Kanban.Proofs.Operation
import Kanban.Proofs.Projection.Columns

/-!
# Kanban.Proofs.Projection.Acts — everything that can be done with a client's view

Moves are started and their outcomes are learned, events come and boards are read, in any order and
with any data. What an event or a read comes to depends on data that nobody has checked; here it is
said once what it can come to.

* `Act`, `act`, `run` — what can be done, once and over and over.
* `act_rollback` — what learning a failure comes to.
* `heard` — what an event comes to.
* `refreshed` — what reading a board comes to.
-/

namespace Kanban

namespace Projection

variable {p : Projection}

/-- What can be done with a client's view of a board. -/
inductive Act where
  /-- A card is moved here and now, with any source of positions. -/
  | begin (now : Float) (card target : String) (d : Directive) (a : Allocator)
  /-- A move was committed. -/
  | confirm (n : Nat) (stage : Option String) (position : Option Float)
  /-- A move has failed. -/
  | rollback (n : Nat) (error : Option Failure)
  /-- An event came. -/
  | hear (e : Value)
  /-- The board was read. -/
  | refresh (payload : Value)

/-- Whether an act reads the board. -/
def Act.isRefresh : Act → Bool
  | .refresh _ => true
  | _ => false

/-- The view after an act. -/
def act (p : Projection) : Act → Projection
  | .begin now card target d a => (p.begin now card (.text target) d a).2.1
  | .confirm n stage position =>
    (settleConfirmed n (Value.ofText? stage) (position.elim .null .real) p).2
  | .rollback n error => (settleFailed n error p).2
  | .hear e => (applyEvent e p).2
  | .refresh payload => (applyRefresh payload p).2

/-- The view after some acts. -/
def run (p : Projection) (acts : List Act) : Projection := acts.foldl act p

@[simp] theorem run_nil (p : Projection) : p.run [] = p := rfl

@[simp] theorem run_append (p : Projection) (as bs : List Act) :
    p.run (as ++ bs) = (p.run as).run bs := List.foldl_append

@[simp] theorem run_concat (p : Projection) (as : List Act) (a : Act) :
    p.run (as ++ [a]) = (p.run as).act a := by
  rw [run_append]
  rfl

/-- A view with its columns taken to be in order. -/
def calmed (p : Projection) : Projection := { p with jumbled := false }

theorem calmed_of_calm (h : p.jumbled = false) : p.calmed = p := by
  rw [calmed, ← h]

open Operation

/-- Complaining about a column that cannot be put in order forgets it. -/
theorem state_checkOrder (p : Projection) : (checkOrder p).2 = p.calmed := by
  unfold checkOrder
  cases hj : p.jumbled with
  | false =>
    simp only [bind_apply, get_apply, if_apply, hj, Bool.false_eq_true, if_false, pure_apply]
    rw [calmed, ← hj]
  | true => simp only [bind_apply, get_apply, if_apply, hj, if_true, set_apply, throw_apply, calmed]

/-! ## Outcomes -/

/-- The stage that an outcome names; an empty name names none. -/
def namedStage (stage : Option String) : Option Key := (stage.filter (· ≠ "")).map .text

theorem act_confirm (n : Nat) (stage : Option String) (position : Option Float) (p : Projection) :
    p.act (.confirm n stage position) =
      (p.confirm n (namedStage stage) (position.map .real)).calmed := by
  have hstage : (Value.ofText? stage).given? = namedStage stage := by
    cases stage with
    | none => rfl
    | some s =>
      by_cases hs : s = "" <;>
        simp [Value.ofText?, Value.given?, Value.given, namedStage, Option.filter, hs]
  have hmark : markOf (position.elim .null .real) = position.map .real := by
    cases position <;> rfl
  simp only [act, settleConfirmed, hstage, hmark]
  cases hn : namedStage stage with
  | none => exact state_checkOrder _
  | some s =>
    -- a name that is given is text
    obtain ⟨t, -, rfl⟩ := Option.map_eq_some_iff.1 hn
    exact state_checkOrder _

theorem settleFailed_reason (n : Nat) (reason : Option Reason) (p : Projection) :
    settleFailed n (reason.map (·.failure)) p = checkOrder (p.rollback n reason) := by
  have hreason : (reason.map (·.failure)).mapM Failure.reason = .ok reason := by
    cases reason with
    | none => rfl
    | some r => simp [Option.mapM]
  rw [settleFailed, hreason]
  rfl

theorem settleFailed_of_fault? {e : Failure} {fault : Fault} (h : e.fault? = some fault) (n : Nat)
    (p : Projection) :
    settleFailed n (some e) p =
      (if p.isOpen n then .error (.unreadable fault) else .ok (), p.giveUp n (some e)) := by
  have hreason : (some e).mapM Failure.reason = .error fault := by
    simp [Option.mapM, Failure.reason_of_fault? h]
  simp only [settleFailed, hreason, bind_apply, get_apply, set_apply, if_apply, throw_apply,
    pure_apply]
  split <;> rfl

/-- Learning a failure that has words takes the card back. -/
theorem act_rollback_reason (n : Nat) (reason : Option Reason) (p : Projection) :
    p.act (.rollback n (reason.map (·.failure))) = (p.rollback n reason).calmed := by
  simp only [act, settleFailed_reason, state_checkOrder]

/-- What learning a failure comes to: one that has words takes the card back, and any other is the
end of the move alone. -/
theorem act_rollback (n : Nat) (error : Option Failure) (p : Projection) :
    (∃ reason : Option Reason, error = reason.map (·.failure) ∧ error.bind Failure.fault? = none ∧
      p.act (.rollback n error) = (p.rollback n reason).calmed) ∨
    ∃ fault, error.bind Failure.fault? = some fault ∧
      p.act (.rollback n error) = p.giveUp n error := by
  cases error with
  | none => exact .inl ⟨none, rfl, rfl, act_rollback_reason n none p⟩
  | some e =>
    cases hf : e.fault? with
    | none => exact .inl ⟨some ⟨e, hf⟩, rfl, hf, act_rollback_reason n (some ⟨e, hf⟩) p⟩
    | some fault => exact .inr ⟨fault, hf, congrArg Prod.snd (settleFailed_of_fault? hf n p)⟩

/-- Learning the outcome of a settled move again changes nothing. -/
theorem act_outcome_settled (hj : p.jumbled = false) {n : Nat} {m : Move}
    (hm : Entries.get? n p.moves = some m) (hs : m.state ≠ .optimistic) :
    (∀ stage position, p.act (.confirm n stage position) = p) ∧
      ∀ error, p.act (.rollback n error) = p := by
  refine ⟨fun stage position => ?_, fun error => ?_⟩
  · rw [act_confirm, confirm_settled hm hs, calmed_of_calm hj]
  · rcases act_rollback n error p with ⟨reason, -, -, hq⟩ | ⟨fault, -, hq⟩
    · rw [hq, rollback_settled hm hs, calmed_of_calm hj]
    · rw [hq, giveUp_settled hm hs]

/-! ## Events -/

/-- What an event may come to. -/
inductive Heard (e : Value) (p : Projection) : Projection → Prop where
  /-- Nothing that is known, or nothing that can be read. -/
  | ignored : Heard e p p
  /-- A card was moved to a position that cannot be read. -/
  | unplaced (card : String) (stage position : Value) (r : Entries String Value)
      (hr : e.record = .ok r) (hm : r.getD "event" .null = .text "card_moved")
      (hp : Entries.get? "position" r = some position) (f : Fault) (hf : position.toReal = .error f) :
      Heard e p (p.hear card stage none)
  /-- A card was moved to a stage that cannot be a key. -/
  | lost (card : String) (stage : Value) (x : Float) (r : Entries String Value)
      (hr : e.record = .ok r) (hs : Entries.get? "stage_key" r = some stage)
      (hn : stage.isName = false) (hm : r.getD "event" .null = .text "card_moved") (v : Value)
      (hv : Entries.get? "card_id" r = some v) (hc : v.shown = card) :
      Heard e p ((p.hear card stage (some x)).lose card)
  /-- A card was moved. -/
  | moved (card : String) (stage : Key) (x : Float) (r : Entries String Value)
      (hr : e.record = .ok r) (hm : r.getD "event" .null = .text "card_moved") (v : Value)
      (hv : Entries.get? "card_id" r = some v) (hc : v.shown = card) :
      Heard e p (p.remoteMove card stage x).2.calmed
  /-- A stage was folded into one that cannot be a key. -/
  | emptied (stage fallback : Key) (r : Entries String Value) (hr : e.record = .ok r)
      (hs : Entries.get? "fallback_stage_key" r = some fallback) (hn : fallback.isName = false)
      (hm : r.getD "event" .null = .text "stage_deactivated")
      (hk : Entries.get? "stage_key" r = some stage) :
      Heard e p { (p.fold stage fallback).2 with
        columns := Entries.erase fallback (p.fold stage fallback).2.columns, jumbled := false }
  /-- A stage was folded. -/
  | folded (stage fallback : Key) (r : Entries String Value) (hr : e.record = .ok r)
      (hm : r.getD "event" .null = .text "stage_deactivated")
      (hk : Entries.get? "stage_key" r = some stage) : Heard e p (p.fold stage fallback).2.calmed

/-- An event that tells of a moved card tells a position that can be read. -/
def Placed (e : Value) : Prop :=
  ∀ r v, e.record = .ok r → r.getD "event" .null = .text "card_moved" →
    Entries.get? "position" r = some v → ∃ x, v.toReal = .ok x

/-- The stages that an event tells of are named by what can be a key. -/
def Keyed (e : Value) : Prop :=
  ∀ r k v, e.record = .ok r → k ∈ ["stage_key", "fallback_stage_key"] →
    Entries.get? k r = some v → v.isName = true

theorem state_hearMove (card : String) (stage position : Value) (p : Projection) :
    (hearMove card stage position p).2 = match position.toReal with
      | .error _ => p.hear card stage none
      | .ok x =>
        if !stage.isName && (p.locate card).isSome then (p.hear card stage (some x)).lose card
        else (p.remoteMove card stage x).2.calmed := by
  unfold hearMove
  cases position.toReal with
  | error f => rfl
  | ok x =>
    simp only [bind_apply, get_apply, if_apply]
    split
    · rfl
    · have hend := state_bind_pure checkOrder (p.remoteMove card stage x).1 (p.remoteMove card stage x).2
      rw [bind_apply, state_checkOrder] at hend
      exact hend

theorem state_hearFold (stage fallback : Value) (p : Projection) :
    (hearFold stage fallback p).2 =
      if stage.isName = false then p
      else if (p.fold stage fallback).1 && !fallback.isName then
        { (p.fold stage fallback).2 with
          columns := Entries.erase fallback (p.fold stage fallback).2.columns, jumbled := false }
      else (p.fold stage fallback).2.calmed := by
  unfold hearFold
  cases hs : stage.isName with
  | false => rfl
  | true =>
    simp only [Bool.not_true, Bool.false_eq_true, if_false, Bool.true_eq_false, bind_apply, get_apply,
      if_apply]
    split
    · rfl
    · have hend := state_bind_pure checkOrder (p.fold stage fallback).1 (p.fold stage fallback).2
      rw [bind_apply, state_checkOrder] at hend
      exact hend

theorem get?_of_need {r : Entries String Value} {k : String} {v : Value} (h : r.need k = .ok v) :
    Entries.get? k r = some v := by
  unfold Entries.need at h
  cases hg : Entries.get? k r with
  | none => simp [hg] at h
  | some w =>
    rw [hg] at h
    exact congrArg some (Except.ok.inj h)

/-- What an event comes to. -/
theorem heard (e : Value) (p : Projection) : Heard e p (p.act (.hear e)) := by
  change Heard e p (applyEvent e p).2
  unfold applyEvent
  rw [state_read]
  cases hr : e.record with
  | error f => exact .ignored
  | ok r =>
    dsimp only
    generalize hm : r.getD "event" .null = kind
    split
    · -- a card was moved
      rw [state_read]
      cases hc : r.need "card_id" with
      | error f => exact .ignored
      | ok card =>
        dsimp only
        rw [state_read]
        cases hs : r.need "stage_key" with
        | error f => exact .ignored
        | ok stage =>
          dsimp only
          rw [state_read]
          cases hp : r.need "position" with
          | error f => exact .ignored
          | ok position =>
            dsimp only
            rw [state_read]
            cases hid : card.toText with
            | error f => exact .ignored
            | ok id =>
              dsimp only
              rw [state_hearMove]
              have hshown := Value.shown_of_toText hid
              cases hx : position.toReal with
              | error f => exact .unplaced _ _ position r hr hm (get?_of_need hp) f hx
              | ok x =>
                dsimp only
                split
                · rename_i hn
                  simp only [Bool.and_eq_true, Bool.not_eq_true'] at hn
                  exact .lost _ _ x r hr (get?_of_need hs) hn.1 hm card (get?_of_need hc) hshown
                · exact .moved _ _ x r hr hm card (get?_of_need hc) hshown
    · -- a stage was deactivated
      rw [state_read]
      cases hs : r.need "stage_key" with
      | error f => exact .ignored
      | ok stage =>
        dsimp only
        rw [state_read]
        cases hf : r.need "fallback_stage_key" with
        | error f => exact .ignored
        | ok fallback =>
          dsimp only
          rw [state_hearFold]
          split
          · exact .ignored
          · split
            · rename_i hn
              simp only [Bool.and_eq_true, Bool.not_eq_true'] at hn
              exact .emptied _ _ r hr (get?_of_need hf) hn.2 hm (get?_of_need hs)
            · exact .folded _ _ r hr hm (get?_of_need hs)
    · exact .ignored

/-! ## Reads -/

/-- The columns of a board as they are read. -/
def readColumns (board : Key) (payload : Value) : Except Fault (Entries Key (List Card)) := do
  let r ← payload.record
  match (r.getD "cards_by_stage" .null).given? with
  | none => pure []
  | some v => (← v.record).mapM (readColumn board)

/-- What reading a board comes to: all columns are those that were read, or no column has changed. -/
theorem refreshed (payload : Value) (p : Projection) :
    (∃ board stages, p.act (.refresh payload) = { p with board, stages }) ∨
      ∃ board stages cs, readColumns board payload = .ok cs ∧
        p.act (.refresh payload) = refresh cs { p with board, stages } := by
  change (∃ board stages, (applyRefresh payload p).2 = { p with board, stages }) ∨
    ∃ board stages cs, readColumns board payload = .ok cs ∧
      (applyRefresh payload p).2 = refresh cs { p with board, stages }
  unfold applyRefresh readColumns
  rw [state_read]
  cases payload.record with
  | error f => exact .inl ⟨_, _, rfl⟩
  | ok r =>
    simp only [bind_apply, get_apply, modify_apply, lift_apply, unless_apply]
    generalize r.getD "board_key" p.board = board
    generalize (do
      (← (r.getD "stages" (.list [])).items).mapM fun v => do
        Stage.ofValue (← withDefaults [("board_key", board)] v)) = stages
    cases stages with
    | error f => exact .inl ⟨_, _, rfl⟩
    | ok stages =>
      simp only [Failure.ofReading]
      split
      · exact .inl ⟨_, _, rfl⟩
      · -- the columns that were given, or none
        cases hg : (r.getD "cards_by_stage" .null).given? with
        | none =>
          refine .inr ⟨board, stages, [], ?_, rfl⟩
          simp only [ok_bind, hg]
          rfl
        | some v =>
          cases hc : v.record >>= fun es => es.mapM (readColumn board) with
          | error f =>
            simp only [hc]
            exact .inl ⟨_, _, rfl⟩
          | ok cs =>
            refine .inr ⟨board, stages, cs, ?_, ?_⟩
            · simp only [ok_bind, hg]
              exact hc
            · simp only [hc]

end Projection

end Kanban
