import Kanban.Proofs.Server.Sending
import Kanban.Proofs.Storage.InUse

/-!
# Kanban.Proofs.Service.Calls — what may be asked of a service

The calls of a service as data, with what they answer, so that histories of them can be spoken of, and
what each of them comes to behind its checks: a move is a transition on the board that was asked for,
a deactivation is one of the stage that was found, everything else only reads.

* `Call`, `Reply`, `perform`, `runAll` — calls and histories of them.
* `move_apply`, `deactivate_apply`, … — what calls come to.
* `move_acts`, …, `perform_acts`, `runAll_acts` — calls are rows of acts of the server.
-/

namespace Kanban

/-! ## Calls -/

namespace Service

/-- What a caller may ask of a service. -/
inductive Call where
  | move (now : Float) (q : MoveRequest)
  | board (account : String) (board : Value)
  | stages (account : String) (board : Value)
  | deactivate (account : String) (stage : Value)
  | subscribe (account : String) (board : Value)

/-- What a call is answered. -/
inductive Reply where
  | moved (c : Card)
  | listed (l : Listing)
  | deactivated (d : Deactivation)
  | subscribed (n : Nat)
  | refused (r : Refusal)

/-- A result as a reply. -/
def Reply.of {α : Type} (f : α → Reply) : Except Refusal α → Reply
  | .ok a => f a
  | .error r => .refused r

namespace Call

/-- The account of a call. -/
def account : Call → String
  | .move _ q => q.account
  | .board a _ | .stages a _ | .deactivate a _ | .subscribe a _ => a

/-- Carry out a call. -/
def perform (v : Service) : Call → Server.Op Reply
  | .move now q => Reply.of .moved <$> v.move now q
  | .board a b => Reply.of .listed <$> v.board a b
  | .stages a b => Reply.of .listed <$> v.stages a b
  | .deactivate a stage => Reply.of .deactivated <$> v.deactivate a stage
  | .subscribe a b => .subscribed <$> v.subscribe a b

/-- The server after a history of calls, each under a configuration of its own. -/
def runAll (history : List (Service × Call)) (s : Server) : Server :=
  history.foldl (fun s e => (e.2.perform e.1 s).2) s

/-- The board that a call is about, for which leave is asked: the one that is named or the default, and
for a deactivation that of the stage. -/
def board? (v : Service) (s : Server) : Call → Option Key
  | .move _ q => some (v.boardOf q.board)
  | .board _ b | .stages _ b | .subscribe _ b => some (v.boardOf b)
  | .deactivate a stage => ((s.storage.inUse a).stage? stage.shown).map (·.board)

end Call

/-! ## Behind the checks -/

open Operation

variable {v : Service} {s : Server}

/-- A call that goes on changes records through an operation only, whose result it answers. -/
theorem map_eq {α β : Type} (g : α → β) (x : Server.Op α) (s : Server) :
    (g <$> x) s = ((x s).1.map g, (x s).2) := by
  rw [map_apply]
  cases x s with
  | mk r t => cases r <;> rfl

/-- Using an account fails or succeeds. -/
theorem use_cases (account : String) (s : Server) :
    (∃ e, Server.use account s = (.error e, (Server.use account s).2)) ∨
      Server.use account s = (.ok (), (Server.use account s).2) := by
  cases Server.use account s with
  | mk r t =>
    cases r with
    | error e => exact .inl ⟨e, rfl⟩
    | ok _ => exact .inr rfl

/-- What a move comes to before the account is used, if it goes no further. -/
def checkMove (v : Service) (q : MoveRequest) : Except (Except Failure Refusal) Directive :=
  if v.authorize q.account (v.boardOf q.board) then
    if q.card.given && q.stage.given then
      match Directive.ofParams q.params with
      | .ok d => .ok d
      | .error .wrongKind | .error .malformed => .error (.ok {
          error := "Invalid position parameters", code := .validation
          details := [("position_params", q.params)] })
      | .error f => .error (.error (.unreadable f))
    else .error (.ok { error := "card_id and stage_key are required", code := .validation })
  else .error (.ok (.denied (v.boardOf q.board)))

theorem checkMove_eq_ok_iff {q : MoveRequest} {d : Directive} :
    v.checkMove q = .ok d ↔ v.authorize q.account (v.boardOf q.board) = true ∧ q.card.given = true ∧
      q.stage.given = true ∧ Directive.ofParams q.params = .ok d := by
  unfold checkMove
  cases v.authorize q.account (v.boardOf q.board) <;> cases q.card.given <;> cases q.stage.given
    <;> cases Directive.ofParams q.params with
    | ok d' => simp
    | error f => cases f <;> simp

/-- A move that passes its checks is a transition on the board that was asked for. -/
theorem move_apply (v : Service) (now : Float) (q : MoveRequest) (s : Server) :
    v.move now q s = match v.checkMove q with
      | .error (.error f) => (.error f, s)
      | .error (.ok r) => (.ok (.error r), s)
      | .ok d => match Server.use q.account s with
        | (.error e, t) => (.error e, t)
        | (.ok (), t) => match q.card.toText with
          | .error f => (.error (.unreadable f), t)
          | .ok card =>
            let x := Transition.run now true q.account card q.stage d (some (v.boardOf q.board)) t
            (.ok x.1, x.2) := by
  unfold Service.move Service.startMove checkMove
  rw [bind_apply]
  cases hauth : v.authorize q.account (v.boardOf q.board) with
  | false => rfl
  | true =>
    cases hc : q.card.given with
    | false => rfl
    | true =>
      cases hs : q.stage.given with
      | false => rfl
      | true =>
        simp only [Bool.not_true, Bool.false_eq_true, if_false, if_true, Bool.or_self, Bool.and_self]
        cases hd : Directive.ofParams q.params with
        | error f => cases f <;> rfl
        | ok d =>
          simp only [bind_apply]
          cases Server.use q.account s with
          | mk x t =>
            cases x with
            | error e => rfl
            | ok u =>
              simp only [lift_apply]
              cases q.card.toText with
              | error f => rfl
              | ok card =>
                simp only [Failure.ofReading, get_apply, set_apply, pure_apply]
                unfold Transition.run
                cases Transition.plan now q.account card q.stage d (some (v.boardOf q.board)) t with
                | mk r u =>
                  cases r with
                  | error e => rfl
                  | ok p => rfl

/-- A board that may be read. -/
theorem board_apply (v : Service) (account : String) (b : Value) (s : Server) :
    v.board account b s =
      if v.authorize account (v.boardOf b) then
        match Server.use account s with
        | (.error e, t) => (.error e, t)
        | (.ok (), t) =>
          if ((t.records account).activeStages (v.boardOf b)).all (·.key.isName) then
            (.ok (.ok {
              board := v.boardOf b
              stages := (t.records account).activeStages (v.boardOf b)
              cards := Entries.ofList (((t.records account).activeStages (v.boardOf b)).map
                fun s => (s.key, displayOrder below (firstCards v.settings.stageCardLimit
                  ((t.records account).cardsIn (v.boardOf b) s.key)))) }), t)
          else (.error (.unreadable .wrongKind), t)
      else (.ok (.error (.denied (v.boardOf b))), s) := by
  unfold Service.board
  cases hauth : v.authorize account (v.boardOf b) with
  | false => rfl
  | true =>
    simp only [Bool.not_true, Bool.false_eq_true, if_false, if_true, bind_apply, get_apply]
    cases Server.use account s with
    | mk x t =>
      cases x with
      | error e => rfl
      | ok u =>
        -- a key that cannot name an entry of the answer fails the read
        cases hn : ((t.records account).activeStages (v.boardOf b)).all (·.key.isName) with
        | false =>
          simp only [hn, Bool.not_false, if_true, Bool.false_eq_true, if_false, bind_apply, throw_apply]
        | true => simp only [hn, Bool.not_true, Bool.false_eq_true, if_false, if_true, pure_apply]

theorem stages_apply (v : Service) (account : String) (b : Value) (s : Server) :
    v.stages account b s =
      if v.authorize account (v.boardOf b) then
        match Server.use account s with
        | (.error e, t) => (.error e, t)
        | (.ok (), t) => (.ok (.ok {
            board := v.boardOf b, stages := (t.records account).stagesOf (v.boardOf b) }), t)
      else (.ok (.error (.denied (v.boardOf b))), s) := by
  unfold Service.stages
  cases hauth : v.authorize account (v.boardOf b) with
  | false => rfl
  | true =>
    simp only [Bool.not_true, Bool.false_eq_true, if_false, if_true, bind_apply, get_apply]
    cases Server.use account s with
    | mk x t => cases x <;> rfl

theorem subscribe_apply (v : Service) (account : String) (b : Value) (s : Server) :
    v.subscribe account b s =
      if v.authorize account (v.boardOf b) then
        (.ok s.channel.subscriptions.length,
          { s with channel := (s.channel.subscribe (Channel.keyOf account (v.boardOf b))).2 })
      else (.error (.accessDenied (v.boardOf b)), s) := by
  unfold Service.subscribe
  cases v.authorize account (v.boardOf b) <;> rfl

/-- What a deactivation that could not be carried out is answered. -/
def stageRefusal (x : Refusal × Key) : Refusal :=
  { x.1 with details := if x.2.given then [("stage_key", x.2)] else [] }

/-- A deactivation of a stage that is there, on a board that may be used. -/
theorem deactivate_apply (v : Service) (account : String) (stage : Value) (s : Server) :
    v.deactivate account stage s =
      match Server.use account s with
      | (.error e, t) => (.error e, t)
      | (.ok (), t) =>
        match (t.records account).stage? stage.shown with
        | none => (.ok (.error {
            error := "Stage " ++ stage.shown ++ " not found", code := .notFound }), t)
        | some x =>
          if v.authorize account x.board then
            match Deactivation.run true account x.id t with
            | (.error e, u) => (.error e, u)
            | (.ok r, u) => (.ok (r.mapError stageRefusal), u)
          else (.ok (.error (.denied x.board)), t) := by
  unfold Service.deactivate
  rw [bind_apply]
  cases Server.use account s with
  | mk x t =>
    cases x with
    | error e => rfl
    | ok u =>
      simp only [bind_apply, get_apply]
      cases (t.records account).stage? stage.shown with
      | none => rfl
      | some x =>
        dsimp only
        cases hauth : v.authorize account x.board with
        | false => simp only [Bool.not_false, Bool.false_eq_true, if_false, if_true, pure_apply]
        | true =>
          simp only [Bool.not_true, Bool.false_eq_true, if_false, if_true, bind_apply]
          cases Deactivation.run true account x.id t with
          | mk r w =>
            cases r with
            | error e => rfl
            | ok r => cases r <;> rfl

/-! ## Histories -/

/-- A move is at most using the account, planning and committing. -/
theorem move_acts (v : Service) (now : Float) (q : MoveRequest) (s : Server) :
    ∃ acts, (v.move now q s).2 = Act.runAll acts s := by
  rw [move_apply]
  cases v.checkMove q with
  | error x => cases x <;> exact ⟨[], rfl⟩
  | ok d =>
    rcases use_cases q.account s with ⟨e, hu⟩ | hu
    · rw [hu]
      -- the account could not be used, and nothing else was tried
      exact ⟨[.use q.account], rfl⟩
    · rw [hu]
      dsimp only
      cases q.card.toText with
      | error f => exact ⟨[.use q.account], rfl⟩
      | ok card =>
        dsimp only
        -- planned, and committed if there is a plan
        unfold Transition.run
        cases hplan : Transition.plan now q.account card q.stage d
            (some (v.boardOf q.board)) (Server.use q.account s).2 with
        | mk x t =>
          obtain rfl := (congrArg Prod.snd hplan).symm
          cases x with
          | error e =>
            exact ⟨[.use q.account, .plan now q.account card q.stage d
              (some (v.boardOf q.board))], rfl⟩
          | ok p =>
            exact ⟨[.use q.account, .plan now q.account card q.stage d
              (some (v.boardOf q.board)), .commit true q.stage (.ok ()) p], rfl⟩

/-- Reading a board is at most using the account. -/
theorem board_acts (v : Service) (account : String) (b : Value) (s : Server) :
    ∃ acts, (v.board account b s).2 = Act.runAll acts s := by
  rw [board_apply]
  split
  · refine ⟨[.use account], ?_⟩
    rw [Act.runAll_use]
    cases Server.use account s with
    | mk r u =>
      cases r with
      | error e => rfl
      | ok _ =>
        dsimp only
        split <;> rfl
  · exact ⟨[], rfl⟩

/-- Reading the stages is at most using the account. -/
theorem stages_acts (v : Service) (account : String) (b : Value) (s : Server) :
    ∃ acts, (v.stages account b s).2 = Act.runAll acts s := by
  rw [stages_apply]
  split
  · refine ⟨[.use account], ?_⟩
    rw [Act.runAll_use]
    cases Server.use account s with
    | mk r u => cases r <;> rfl
  · exact ⟨[], rfl⟩

/-- A deactivation is at most using the account and deactivating the stage that was found. -/
theorem deactivate_acts (v : Service) (account : String) (stage : Value) (s : Server) :
    ∃ acts, (v.deactivate account stage s).2 = Act.runAll acts s := by
  rw [deactivate_apply]
  rcases use_cases account s with ⟨e, hu⟩ | hu
  · rw [hu]
    exact ⟨[.use account], rfl⟩
  · rw [hu]
    dsimp only
    split
    · exact ⟨[.use account], rfl⟩
    · rename_i x _
      split
      · -- found and allowed: what the deactivation answers makes no difference to what it does
        refine ⟨[.use account, .deactivate true account x.id], ?_⟩
        have hrun : Act.runAll [.use account, .deactivate true account x.id] s =
            (Deactivation.run true account x.id (Server.use account s).2).2 := rfl
        rw [hrun]
        cases Deactivation.run true account x.id (Server.use account s).2 with
        | mk r w => cases r <;> rfl
      · exact ⟨[.use account], rfl⟩

/-- A subscription is at most a change of what is listened to. -/
theorem subscribe_acts (v : Service) (account : String) (b : Value) (s : Server) :
    ∃ acts, (v.subscribe account b s).2 = Act.runAll acts s := by
  rw [subscribe_apply]
  split
  · exact ⟨[.listen fun c => (c.subscribe (Channel.keyOf account (v.boardOf b))).2], rfl⟩
  · exact ⟨[], rfl⟩

/-- A call is a row of acts of the server. -/
theorem perform_acts (v : Service) (c : Call) (s : Server) :
    ∃ acts, (c.perform v s).2 = Act.runAll acts s := by
  cases c with
  | move now q =>
    rw [Call.perform, map_eq]
    exact move_acts v now q s
  | board account b =>
    rw [Call.perform, map_eq]
    exact board_acts v account b s
  | stages account b =>
    rw [Call.perform, map_eq]
    exact stages_acts v account b s
  | deactivate account stage =>
    rw [Call.perform, map_eq]
    exact deactivate_acts v account stage s
  | subscribe account b =>
    rw [Call.perform, map_eq]
    exact subscribe_acts v account b s

/-- A history of calls is a row of acts of the server. -/
theorem runAll_acts (history : List (Service × Call)) (s : Server) :
    ∃ acts, Call.runAll history s = Act.runAll acts s := by
  induction history generalizing s with
  | nil => exact ⟨[], rfl⟩
  | cons e history ih =>
    obtain ⟨acts, hacts⟩ := perform_acts e.1 e.2 s
    obtain ⟨more, hmore⟩ := ih (e.2.perform e.1 s).2
    refine ⟨acts ++ more, ?_⟩
    rw [Act.runAll_append, ← hacts]
    exact hmore

end Service

end Kanban
