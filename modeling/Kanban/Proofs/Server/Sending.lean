import Kanban.Client
import Kanban.Proofs.Directive
import Kanban.Proofs.Projection.Provisional
import Kanban.Proofs.Server.Atomic
import Kanban.Proofs.Storage.Using

/-!
# Kanban.Proofs.Server.Sending — what a client's move comes to

A client that may use a board and sends a move of a card is answered in any case: nothing was stored,
and there are words for why, or the card is stored in the open stage that it was to move to, at a
finite position. Both leave the source of positions in order.

* `sendTo_eq`, `sendTo_apply` — sending a move is a transition.
* `sendTo_committed` — what is told of as stored was stored by a transition.
* `sendTo_outcome` — what it comes to.
-/

namespace Kanban

/-! ## Why a move is refused -/

/-- A failure that is passed on to the caller is put into words. -/
def Failure.Spoken (e : Failure) : Prop := e.isInvalidRecord = true → e.message ≠ ""

namespace Storage

variable {account id : String} {s : Storage}

theorem spoken_checkPosition {v : Value} {e : Failure} (h : checkPosition v = .error e) :
    e.Spoken := by
  unfold checkPosition at h
  intro hi
  unfold Failure.message
  -- a position that is too large or no number, and one that is not finite, have words of their own
  split at h
  · split at h
    · cases h
    · obtain rfl := Except.error.inj h
      simp
  · obtain rfl := Except.error.inj h
    cases hi
  · obtain rfl := Except.error.inj h
    simp

theorem spoken_persist {c : Change} {e : Failure} (h : (persist account c s).1 = .error e) :
    e.Spoken := by
  -- a snapshot that has no text is no invalid record, so it needs no words
  have hno {p : Json.Problem} : (Snapshot.failureOf p).isInvalidRecord = false := by cases p <;> rfl
  unfold persist at h
  cases hf : s.folder with
  | none => simp [hf] at h
  | some f =>
    simp only [hf, Snapshot.save] at h
    cases hp : Json.problem? Json.maxWritten
        (Snapshot.documentOf (.text account) s.stamp ((s.records account).apply c).toData) with
    | some p =>
      simp only [hp] at h
      obtain rfl := Except.error.inj h
      intro hi
      split at hi
      · rw [hno] at hi
        cases hi
      · cases hi
    | none =>
      simp only [hp, Folder.write] at h
      split at h
      · rename_i hw
        split at hw
        · cases hw
        · cases h
      · rename_i hw
        obtain rfl := Except.error.inj h
        split at hw
        · obtain rfl := Except.error.inj (Prod.mk.inj hw).1
          simp [Failure.Spoken, Failure.isInvalidRecord]
        · cases hw

open Operation in
theorem spoken_place {stage : Key} {position : Value} {e : Failure}
    (h : (place account id stage position s).1 = .error e) : e.Spoken := by
  unfold place at h
  rw [bind_apply, lift_apply] at h
  cases hx : checkPosition position with
  | error f =>
    rw [hx] at h
    obtain rfl := Except.error.inj h
    exact spoken_checkPosition hx
  | ok x =>
    simp only [hx, bind_apply, get_apply] at h
    -- a missing card and a closed stage are no invalid records either
    cases hc : (s.records account).card? id with
    | none =>
      simp only [hc, throw_apply] at h
      obtain rfl := Except.error.inj h
      simp [Failure.Spoken, Failure.isInvalidRecord]
    | some c =>
      cases ho : (s.records account).activeStage? c.board stage with
      | none =>
        simp only [hc, ho, Option.isNone_none, if_true] at h
        obtain rfl := Except.error.inj h
        simp [Failure.Spoken, Failure.isInvalidRecord]
      | some _ =>
        simp only [hc, ho, Option.isNone_some, Bool.false_eq_true, if_false, pure_apply, bind_apply] at h
        cases hp : persist account { cards := [{ c with stage, position := x }] } s with
        | mk r t =>
          rw [hp] at h
          cases r with
          | error f =>
            obtain rfl := Except.error.inj h
            exact spoken_persist (congrArg Prod.fst hp)
          | ok u => cases h

end Storage

/-- Among cards at finite positions a source of positions stays in order. -/
theorem Allocator.defined_allocate {a : Allocator} {now : Float} {cards : List Card} {d : Directive}
    (ha : a.Defined) (hnow : now.isNaN = false) (hd : Projection.Definable d)
    (hfin : ∀ c ∈ cards, Decimal.isFinite c.position = true) :
    (a.allocate now cards d).2.Defined := by
  have hfinite {y : Float} (hy : ∃ c ∈ cards, c.position = y) : Decimal.isFinite y = true := by
    obtain ⟨c, hc, rfl⟩ := hy
    exact hfin c hc
  have hmem := Projection.placement_mem cards d
  -- what is reckoned with are positions of cards, or the one that was given
  refine (Allocator.defined_place ha hnow ?_).2
  cases hq : d.placement cards with
  | exactly x =>
    rw [hq] at hmem
    exact hd x hmem
  | between x y =>
    rw [hq] at hmem
    exact ⟨hfinite hmem.1, hfinite hmem.2⟩
  | after x =>
    rw [hq] at hmem
    exact hfinite hmem
  | before x =>
    rw [hq] at hmem
    exact hfinite hmem
  | last => trivial

namespace Transition

variable {now : Float} {announce : Bool} {account card : String} {target board : Key}
  {d : Directive} {p : Plan} {s : Server}

theorem spoken_store {e : Failure} (h : (store (.ok ()) p s).1 = .error e) : e.Spoken :=
  Storage.spoken_place h

theorem refusal_error {e : Failure} (h : e.Spoken) (r : Records) :
    (refusal p target e r).error ≠ "" := by
  unfold refusal
  split
  · split <;> simp [Refusal.noStage, Refusal.noCard]
  · split
    · rename_i hi
      exact h hi
    · simp [Refusal.failedMove]

theorem plan_error {e : Refusal} {b : Option Key}
    (h : (plan now account card target d b s).1 = .error e) : e.error ≠ "" := by
  unfold plan at h
  dsimp only at h
  split at h
  · obtain rfl := Except.error.inj h
    simp [Refusal.noCard]
  · split at h
    · obtain rfl := Except.error.inj h
      simp [Refusal.noCard]
    · split at h
      · obtain rfl := Except.error.inj h
        simp [Refusal.noStage]
      · cases h

/-- A plan is for a card that is there, on the board that was asked for. -/
theorem plan_found (h : (plan now account card target d (some board) s).1 = .ok p) :
    ∃ c, (s.records account).card? card = some c ∧ c.board = board := by
  unfold plan at h
  dsimp only at h
  split at h
  · cases h
  · rename_i c hc
    split at h
    · cases h
    · rename_i hb
      exact ⟨c, hc, not_not.1 hb⟩

theorem commit_error {e : Refusal} (h : (commit announce target (.ok ()) p s).1 = .error e) :
    e.error ≠ "" := by
  unfold commit at h
  split at h
  · rename_i f t hf
    obtain rfl := Except.error.inj h
    exact refusal_error (spoken_store (congrArg Prod.fst hf)) _
  · cases h

/-- Moving a card: nothing is stored, and there are words for why, or the card is stored in the stage,
which is open, at a finite position. -/
theorem run_outcome (now : Float) (announce : Bool) (account card : String) (target board : Key)
    (d : Directive) (s : Server) :
    (∃ e t, run now announce account card target d (some board) s = (.error e, t) ∧ e.error ≠ "" ∧
        s.storage.Untouched t.storage) ∨
      ∃ c x t, (s.records account).card? card = some c ∧ c.board = board ∧
        (s.records account).isOpen board target = true ∧ Decimal.isFinite x = true ∧
        run now announce account card target d (some board) s =
          (.ok { c with stage := target, position := x }, t) ∧
        s.storage.Written account
          ((s.records account).putCard { c with stage := target, position := x }) t.storage := by
  unfold run
  obtain ⟨a, ha⟩ := Server.plan_frame now account card target d (some board) s
  cases hplan : plan now account card target d (some board) s with
  | mk r u =>
    obtain rfl : u = { s with allocator := a } := (congrArg Prod.snd hplan).symm.trans ha
    cases r with
    | error e => exact .inl ⟨e, _, rfl, plan_error (congrArg Prod.fst hplan), .refl _⟩
    | ok p =>
      have hp := congrArg Prod.fst hplan
      -- the plan names what was asked for, and the card is the one that was found
      obtain ⟨rfl, rfl⟩ := Server.plan_names hp
      obtain rfl := plan_target hp
      obtain ⟨c, hc, rfl⟩ := plan_found hp
      dsimp only
      rcases commit_outcome announce p.stage (.ok ()) p { s with allocator := a } with
        ⟨e, t, hcommit, ht⟩ | ⟨c', t, hc', ho, hfin, ht, hcommit⟩
      · exact .inl ⟨e, _, hcommit, commit_error (congrArg Prod.fst hcommit), ht⟩
      · obtain rfl : c = c' := Option.some.inj (hc.symm.trans hc')
        refine .inr ⟨c, p.position, _, hc, rfl, ho, hfin, hcommit, ?_⟩
        cases announce <;> exact ht

/-- Storing a plan asks for no position. -/
theorem allocator_commit (slip : Except Failure Unit) :
    (commit announce target slip p s).2.allocator = s.allocator := by
  unfold commit store
  have h := (Server.onStorage_eq (ExceptT.mk (pure slip) >>= fun _ =>
    Storage.place p.account p.card p.stage (.real p.position)) s).2
  split
  · rename_i hs
    rw [← h, hs]
  · rename_i hs
    rw [← h, hs]
    split <;> rfl

/-- Moving a card among cards at finite positions leaves the source of positions in order. -/
theorem defined_run (hfin : ∀ c ∈ Entries.values (s.records account).cards, c.board = board →
      Decimal.isFinite c.position = true) (ha : s.allocator.Defined) (hnow : now.isNaN = false)
    (hd : Projection.Definable d) :
    (run now announce account card target d (some board) s).2.allocator.Defined := by
  have hplan : (plan now account card target d (some board) s).2.allocator.Defined := by
    unfold plan
    dsimp only
    split
    · exact ha
    · split
      · exact ha
      · split
        · exact ha
        · -- neighbours are cards of the board
          refine Allocator.defined_allocate ha hnow hd fun c hc => ?_
          obtain ⟨hm, hb, -⟩ := Records.cardsIn_mem.1 (List.mem_of_mem_filter hc)
          exact hfin c hm hb
  unfold run
  cases hr : plan now account card target d (some board) s with
  | mk r t =>
    rw [hr] at hplan
    cases r with
    | error e => exact hplan
    | ok p =>
      dsimp only
      rw [allocator_commit]
      exact hplan

end Transition

/-! ## Sending a move -/

namespace Client

open Operation

variable {v : Service} {account : String} {board : Key} {s : Server}

/-- Sending a move of a board that may be used is a transition on that board for an account in use,
unless the card or the stage is not named or the account cannot be used. -/
theorem sendTo_eq (hauth : v.authorize account (v.boardOf board) = true) (now : Float)
    (card target : String) (d : Directive) :
    sendTo v now account board card target d s =
      if card = "" ∨ target = "" then
        (.ok (Refusal.toValue
          { error := "card_id and stage_key are required", code := .validation }), s)
      else match Server.use account s with
        | (.error e, t) => (.error e, t)
        | (.ok (), t) =>
          match Transition.run now true account card target d.received (some (v.boardOf board)) t with
          | (.error e, u) => (.ok e.toValue, u)
          | (.ok c, u) => (.ok (Moved.toPayload c), u) := by
  -- a text counts as given unless it is empty
  have hgiven (t : String) : (Value.text t).given = decide (t ≠ "") := by
    by_cases ht : t = "" <;> simp [Value.given, ht]
  unfold sendTo Service.move Service.startMove
  simp only [hauth, Bool.not_true, Bool.false_eq_true, if_false, hgiven, bind_apply]
  by_cases hn : card = "" ∨ target = ""
  · have hcond : (!decide (card ≠ "") || !decide (target ≠ "")) = true := by
      simpa using hn
    simp only [if_pos hn, if_pos hcond]
    rfl
  · have hcond : ¬(!decide (card ≠ "") || !decide (target ≠ "")) = true := by
      simpa using hn
    simp only [if_neg hn, if_neg hcond, Directive.ofParams_toParams, bind_apply]
    cases Server.use account s with
    | mk used t =>
      cases used with
      | error e => rfl
      | ok _ =>
        simp only [Value.toText_text, Failure.ofReading, lift_apply, get_apply, set_apply, pure_apply]
        unfold Transition.run
        cases Transition.plan now account card (.text target) d.received
          (some (v.boardOf board)) t with
        | mk r u =>
          cases r with
          | error e => rfl
          | ok p =>
            simp only [Service.finishMove, bind_apply, get_apply, set_apply, pure_apply]
            cases Transition.commit true (.text target) (.ok ()) p u with
            | mk r w => cases r <;> rfl

/-- Sending a move of a board that may be used, for an account that is in use, is a transition, unless
the card or the stage is not named. -/
theorem sendTo_apply (hl : s.storage.repository.loaded.contains account = true)
    (hauth : v.authorize account board = true) (hboard : v.boardOf board = board) (now : Float)
    (card target : String) (d : Directive) :
    sendTo v now account board card target d s =
      if card = "" ∨ target = "" then
        (.ok (Refusal.toValue
          { error := "card_id and stage_key are required", code := .validation }), s)
      else match Transition.run now true account card target d.received (some board) s with
        | (.error e, t) => (.ok e.toValue, t)
        | (.ok c, t) => (.ok (Moved.toPayload c), t) := by
  -- the account was read before, so nothing happens to it here
  have huse : Server.use account s = (.ok (), s) := by
    unfold Server.use Server.onStorage
    rw [Storage.use_of_loaded hl]
  rw [sendTo_eq (by rwa [hboard]), huse, hboard]

/-- A client is told that a card was stored only if a transition stored it, and where that was. -/
theorem sendTo_committed {now : Float} {card target : String} {d : Directive} {c : Card}
    (h : (sendTo v now account board card target d s).1 = .ok (Moved.toPayload c)) :
    ∃ e t, Transition.run now true account card target d.received (some (v.boardOf board))
        (Server.use account s).2 = (.ok e, t) ∧ e.position = c.position := by
  -- a refusal is never taken for a success: it has other fields
  have hrefused {r : Refusal} (hr : (.ok r.toValue : Except Failure Value) = .ok (Moved.toPayload c)) :
      False := by simp [Refusal.toValue, Moved.toPayload] at hr
  cases hauth : v.authorize account (v.boardOf board) with
  | false =>
    unfold sendTo Service.move at h
    simp only [bind_apply] at h
    rw [Service.startMove_denied (q := ⟨account, board, .text card, target, .object d.toParams⟩)
      hauth] at h
    exact (hrefused h).elim
  | true =>
    rw [sendTo_eq hauth] at h
    split at h
    · exact (hrefused h).elim
    · split at h
      · cases h
      · rename_i t huse
        rw [huse]
        split at h
        · exact (hrefused h).elim
        · rename_i e u hrun
          refine ⟨e, u, hrun, ?_⟩
          simp only [Moved.toPayload, Except.ok.injEq, Value.object.injEq, List.cons.injEq,
            Prod.mk.injEq, Value.real.injEq] at h
          exact h.2.2.2.1.2

/-- A client that sends a move is told why nothing was stored, or where its card is stored now. -/
theorem sendTo_outcome (hl : s.storage.repository.loaded.contains account = true)
    (hauth : v.authorize account board = true) (hboard : v.boardOf board = board) (now : Float)
    (card target : String) (d : Directive) :
    (∃ e t, sendTo v now account board card target d s = (.ok (Refusal.toValue e), t) ∧
        e.error ≠ "" ∧ s.storage.Untouched t.storage) ∨
      ∃ c x t, (s.records account).card? card = some c ∧ c.board = board ∧ target ≠ "" ∧
        (s.records account).isOpen board target = true ∧ Decimal.isFinite x = true ∧
        sendTo v now account board card target d s =
          (.ok (Moved.toPayload { c with stage := target, position := x }), t) ∧
        s.storage.Written account
          ((s.records account).putCard { c with stage := target, position := x }) t.storage := by
  rw [sendTo_apply hl hauth hboard]
  split
  · exact .inl ⟨_, s, rfl, by simp, .refl _⟩
  · rename_i hn
    rcases Transition.run_outcome now true account card target board d.received s with
      ⟨e, t, hr, he, ht⟩ | ⟨c, x, t, hc, hb, ho, hx, hr, ht⟩
    · exact .inl ⟨e, t, by rw [hr], he, ht⟩
    · exact .inr ⟨c, x, t, hc, hb, fun h => hn (.inr h), ho, hx, by rw [hr], ht⟩

/-- A client that sends a move leaves the source of positions in order. -/
theorem defined_sendTo (hl : s.storage.repository.loaded.contains account = true)
    (hauth : v.authorize account board = true) (hboard : v.boardOf board = board) {now : Float}
    (hfin : ∀ c ∈ Entries.values (s.records account).cards, c.board = board →
      Decimal.isFinite c.position = true) (ha : s.allocator.Defined) (hnow : now.isNaN = false)
    {d : Directive} (hd : Projection.Definable d) (card target : String) :
    (sendTo v now account board card target d s).2.allocator.Defined := by
  rw [sendTo_apply hl hauth hboard]
  split
  · exact ha
  · have hrun := @Transition.defined_run now true account card (.text target) board d.received s
      hfin ha hnow hd
    cases hr : Transition.run now true account card target d.received (some board) s with
    | mk r t =>
      rw [hr] at hrun
      cases r <;> exact hrun

end Client

end Kanban
