import Kanban.Proofs.Service.Calls

/-!
# Kanban.Proofs.Service.Isolation — accounts do not show to each other

All accounts share one server: its records, its numbers for new stages, its source of positions.
Two servers without a folder are run side by side on the same calls for one account. If they agree
on the account's records and on the source of positions, they go on agreeing, answer alike, and
leave all other accounts as they are, whatever those are on either server.

* `Operation.Respects` — an operation run on two related states.
* `Server.Isolated` — two servers that one account cannot tell apart, and what it leaves of the
  others.
* `Service.perform_respects` — one call; `Service.answers_respects` — a history of calls.
* `Service.other_accounts_hidden` — an account is answered as if there were no other.
-/

namespace Kanban

/-! ## Two runs side by side -/

namespace Operation

variable {σ α β : Type} {R : σ → σ → Prop}

/-- On related states there is one result, and the states that are left are related. -/
def Respects (R : σ → σ → Prop) (x : σ → α × σ) : Prop :=
  ∀ s t, R s t → (x s).1 = (x t).1 ∧ R (x s).2 (x t).2

theorem respects_pure (a : α) : Respects R (pure a : ExceptT Failure (StateM σ) α) :=
  fun _ _ h => ⟨rfl, h⟩

theorem respects_throw (e : Failure) : Respects R (throw e : ExceptT Failure (StateM σ) α) :=
  fun _ _ h => ⟨rfl, h⟩

theorem respects_lift (r : Except Failure α) :
    Respects R (liftM r : ExceptT Failure (StateM σ) α) := by
  cases r with
  | error e => exact respects_throw e
  | ok a => exact respects_pure a

theorem respects_bind {x : ExceptT Failure (StateM σ) α} {f : α → ExceptT Failure (StateM σ) β}
    (hx : Respects R x) (hf : ∀ a, Respects R (f a)) : Respects R (x >>= f) := by
  intro s t h
  rw [bind_apply, bind_apply]
  obtain ⟨hr, hst⟩ := hx s t h
  -- both runs come to the same result, so both go on or both stop
  cases hs : x s with
  | mk r s' =>
    cases ht : x t with
    | mk r' t' =>
      rw [hs, ht] at hr hst
      obtain rfl : r = r' := hr
      cases r with
      | error e => exact ⟨rfl, hst⟩
      | ok a => exact hf a s' t' hst

theorem respects_map (g : α → β) {x : ExceptT Failure (StateM σ) α} (hx : Respects R x) :
    Respects R (g <$> x : ExceptT Failure (StateM σ) β) := by
  rw [← bind_pure_comp]
  exact respects_bind hx fun a => respects_pure (g a)

theorem respects_ite {c : Prop} [Decidable c] {x y : ExceptT Failure (StateM σ) α}
    (hx : Respects R x) (hy : Respects R y) : Respects R (if c then x else y) := by
  split
  · exact hx
  · exact hy

/-- An operation that goes on with what related states have in common. -/
theorem respects_get {f : σ → ExceptT Failure (StateM σ) α} (hsame : ∀ s t, R s t → f s = f t)
    (hf : ∀ s, Respects R (f s)) : Respects R (get >>= f : ExceptT Failure (StateM σ) α) := by
  intro s t h
  rw [bind_apply, bind_apply, get_apply, get_apply]
  dsimp only
  rw [hsame s t h]
  exact hf t s t h

end Operation

open Operation

/-! ## Storage -/

namespace Storage

/-- Two storages without a folder that agree on an account's records. Of the other accounts they
hold what two earlier storages held. -/
structure Isolated (account : String) (s₀ t₀ s t : Storage) : Prop where
  memory : s.folder = none ∧ t.folder = none
  records : s.records account = t.records account
  left : ∀ other, other ≠ account → s.records other = s₀.records other
  right : ∀ other, other ≠ account → t.records other = t₀.records other

variable {account : String} {s₀ t₀ : Storage}

/-- Without a folder, using an account notes that it was used. -/
theorem use_eq_of_memory {s : Storage} (h : s.folder = none) (account : String) :
    ∃ l, use account s = (.ok (), { s with repository := { s.repository with loaded := l } }) := by
  unfold use
  by_cases hc : s.repository.loaded.contains account
  · exact ⟨s.repository.loaded, by simp only [bind_apply, get_apply, hc, if_true, pure_apply]⟩
  · refine ⟨account :: s.repository.loaded, ?_⟩
    simp only [bind_apply, get_apply, hc, Bool.false_eq_true, if_false, set_apply, h, pure_apply]

/-- One of the storages may have used the account before and the other not. -/
theorem use_respects : Respects (Isolated account s₀ t₀) (use account) := by
  intro s t h
  obtain ⟨l, hs⟩ := use_eq_of_memory h.memory.1 account
  obtain ⟨m, ht⟩ := use_eq_of_memory h.memory.2 account
  rw [hs, ht]
  exact ⟨rfl, h.memory, h.records, h.left, h.right⟩

theorem persist_respects (c : Change) : Respects (Isolated account s₀ t₀) (persist account c) := by
  intro s t h
  obtain ⟨s', hs, hs'⟩ := persist_memory h.memory.1 account c
  obtain ⟨t', ht, ht'⟩ := persist_memory h.memory.2 account c
  rw [hs, ht]
  refine ⟨rfl, ⟨hs'.memory, ht'.memory⟩, ?_, fun other ho => ?_, fun other ho => ?_⟩
  · rw [hs'.records, ht'.records, h.records]
  · rw [hs'.others other ho, h.left other ho]
  · rw [ht'.others other ho, h.right other ho]

theorem place_respects (id : String) (stage : Key) (position : Value) :
    Respects (Isolated account s₀ t₀) (place account id stage position) := by
  refine respects_bind (respects_lift _) fun x => respects_get ?_ fun s => ?_
  · intro s t h
    rw [h.records]
  · dsimp only
    cases (s.records account).card? id with
    | none => exact respects_throw _
    | some c =>
      refine respects_ite (respects_bind (respects_throw _) fun _ => ?_) ?_
      all_goals exact respects_bind (persist_respects _) fun _ => respects_pure _

theorem stage_respects (id : String) : Respects (Isolated account s₀ t₀) (stage account id) := by
  refine respects_get ?_ fun s => ?_
  · intro s t h
    rw [h.records]
  · cases (s.records account).stage? id with
    | none => exact respects_throw _
    | some x => exact respects_pure x

theorem setStageActive_respects (id : String) (active : Bool) :
    Respects (Isolated account s₀ t₀) (setStageActive account id active) :=
  respects_bind (stage_respects id) fun _ =>
    respects_bind (persist_respects _) fun _ => respects_pure _

theorem restageAll_respects (source target : Key) (ids : List String) :
    Respects (Isolated account s₀ t₀) (restageAll account source target ids) := by
  induction ids with
  | nil => exact respects_pure []
  | cons id ids ih =>
    refine respects_get ?_ fun s => ?_
    · intro s t h
      rw [h.records]
    · cases (s.records account).card? id with
      | none => exact ih
      | some c =>
        refine respects_ite ih (respects_bind (persist_respects _) fun _ => ?_)
        exact respects_bind ih fun l => respects_pure _

theorem restage_respects (board source target : Key) :
    Respects (Isolated account s₀ t₀) (restage account board source target) := by
  refine respects_get ?_ fun s => restageAll_respects source target _
  intro s t h
  rw [h.records]

end Storage

/-! ## Servers -/

namespace Server

/-- Two servers without a folder that agree on an account's records and on the source of
positions. Of the other accounts they hold what two earlier servers held. -/
structure Isolated (account : String) (s₀ t₀ s t : Server) : Prop where
  storage : s₀.storage.Isolated account t₀.storage s.storage t.storage
  allocator : s.allocator = t.allocator

variable {account : String} {s₀ t₀ s t : Server}

theorem Isolated.records (h : Isolated account s₀ t₀ s t) : s.records account = t.records account :=
  h.storage.records

/-- What is published says nothing of records. -/
theorem Isolated.publish (h : Isolated account s₀ t₀ s t) (board : Key) (e : Value) :
    Isolated account s₀ t₀ (s.publish account board e) (t.publish account board e) :=
  ⟨h.storage, h.allocator⟩

theorem onStorage_respects {α : Type} {op : Storage.Op α}
    (hop : Respects (Storage.Isolated account s₀.storage t₀.storage) op) :
    Respects (Isolated account s₀ t₀) (onStorage op) := by
  intro s t h
  obtain ⟨hr, hst⟩ := hop s.storage t.storage h.storage
  exact ⟨hr, hst, h.allocator⟩

theorem use_respects : Respects (Isolated account s₀ t₀) (Server.use account) :=
  onStorage_respects Storage.use_respects

end Server

/-! ## Transitions and deactivations -/

section

variable {account : String} {s₀ t₀ : Server}

/-- The position that a plan chooses comes from the account's cards and the source that both servers
have in common. -/
theorem Transition.plan_respects (now : Float) (card : String) (target : Key) (d : Directive)
    (board : Option Key) :
    Respects (Server.Isolated account s₀ t₀) (plan now account card target d board) := by
  intro s t h
  unfold plan
  rw [h.records, h.allocator]
  dsimp only
  cases (t.records account).card? card with
  | none => exact ⟨rfl, h⟩
  | some c =>
    dsimp only
    -- all that the plan looks at are the records of the account and the allocator
    by_cases hb : c.board = board.getD c.board
    · rw [if_neg (not_not_intro hb), if_neg (not_not_intro hb)]
      cases (t.records account).activeStage? (board.getD c.board) target with
      | none => exact ⟨rfl, h⟩
      | some stage => exact ⟨rfl, h.storage, rfl⟩
    · rw [if_pos hb, if_pos hb]
      exact ⟨rfl, h⟩

/-- The stages that a refusal names are the account's own. -/
theorem Transition.commit_respects (announce : Bool) (target : Key) (slip : Except Failure Unit)
    {p : Plan} (hp : p.account = account) :
    Respects (Server.Isolated account s₀ t₀) (commit announce target slip p) := by
  intro s t h
  subst hp
  -- a failed store is told in terms of the records as they are then, and these agree
  have hstore : Respects (Server.Isolated p.account s₀ t₀) (store slip p) :=
    Server.onStorage_respects
      (respects_bind (respects_lift slip) fun _ => Storage.place_respects _ _ _)
  obtain ⟨hr, hst⟩ := hstore s t h
  unfold commit
  cases hs : store slip p s with
  | mk r s' =>
    cases ht : store slip p t with
    | mk r' t' =>
      rw [hs, ht] at hr hst
      obtain rfl : r = r' := hr
      cases r with
      | error e =>
        dsimp only
        exact ⟨by rw [hst.records], hst⟩
      | ok c =>
        cases announce with
        | false => exact ⟨rfl, hst⟩
        | true => exact ⟨rfl, hst.publish _ _⟩

theorem Transition.run_respects (now : Float) (announce : Bool) (card : String) (target : Key)
    (d : Directive) (board : Option Key) :
    Respects (Server.Isolated account s₀ t₀) (run now announce account card target d board) := by
  intro s t h
  obtain ⟨hr, hst⟩ := plan_respects now card target d board s t h
  unfold run
  cases hs : plan now account card target d board s with
  | mk r s' =>
    cases ht : plan now account card target d board t with
    | mk r' t' =>
      rw [hs, ht] at hr hst
      obtain rfl : r = r' := hr
      cases r with
      | error e => exact ⟨rfl, hst⟩
      | ok p =>
        -- a plan is for the account that asked for it
        have hp : p.account = account := (Server.plan_names (congrArg Prod.fst hs)).1
        exact commit_respects announce target (.ok ()) hp s' t' hst

theorem Deactivation.run_respects (announce : Bool) (id : String) :
    Respects (Server.Isolated account s₀ t₀) (run announce account id) := by
  refine respects_get ?_ fun s => ?_
  · intro s t h
    rw [h.records]
  · dsimp only
    cases (s.records account).stage? id with
    | none => exact respects_pure _
    | some stage =>
      refine respects_ite (respects_pure _) ?_
      cases (s.records account).defaultStage? stage.board [stage.id] with
      | none => exact respects_pure _
      | some fallback =>
        -- first the stage is closed, then the cards are moved, then it is told
        refine respects_bind (respects_map _ (Server.onStorage_respects
          (Storage.setStageActive_respects _ _))) fun _ => ?_
        refine respects_bind
          (Server.onStorage_respects (Storage.restage_respects _ _ _)) fun l => ?_
        refine respects_ite (respects_bind ?_ fun _ => respects_pure _) (respects_pure _)
        exact fun s t h => ⟨rfl, h.publish _ _⟩

end

/-! ## Calls -/

namespace Service

variable {account : String} {s₀ t₀ s t : Server}

theorem reply_respects {α : Type} (f : α → Reply) {x : Server.Op (Except Refusal α)}
    (hx : Respects (Server.Isolated account s₀ t₀) x) :
    Respects (Server.Isolated account s₀ t₀) (Reply.of f <$> x) :=
  respects_map _ hx

theorem move_respects (v : Service) (now : Float) {q : MoveRequest} (hq : q.account = account) :
    Respects (Server.Isolated account s₀ t₀) (v.move now q) := by
  subst hq
  intro s t h
  rw [move_apply, move_apply]
  -- the check looks at the request alone
  cases v.checkMove q with
  | error x => cases x <;> exact ⟨rfl, h⟩
  | ok d =>
    obtain ⟨hr, hst⟩ := Server.use_respects s t h
    cases hs : Server.use q.account s with
    | mk r s' =>
      cases ht : Server.use q.account t with
      | mk r' t' =>
        rw [hs, ht] at hr hst
        obtain rfl : r = r' := hr
        cases r with
        | error e => exact ⟨rfl, hst⟩
        | ok _ =>
          dsimp only
          cases q.card.toText with
          | error f => exact ⟨rfl, hst⟩
          | ok card =>
            obtain ⟨hrun, hst'⟩ := Transition.run_respects now true card q.stage d
              (some (v.boardOf q.board)) s' t' hst
            exact ⟨congrArg Except.ok hrun, hst'⟩

theorem board_respects (v : Service) (b : Value) :
    Respects (Server.Isolated account s₀ t₀) (v.board account b) := by
  refine respects_ite (respects_pure _) (respects_bind Server.use_respects fun _ => ?_)
  refine respects_get ?_ fun s => ?_
  · intro s t h
    rw [h.records]
  · exact respects_ite (respects_bind (respects_throw _) fun _ => respects_pure _) (respects_pure _)

theorem stages_respects (v : Service) (b : Value) :
    Respects (Server.Isolated account s₀ t₀) (v.stages account b) := by
  refine respects_ite (respects_pure _) (respects_bind Server.use_respects fun _ => ?_)
  refine respects_get ?_ fun s => respects_pure _
  intro s t h
  rw [h.records]

theorem deactivate_respects (v : Service) (stage : Value) :
    Respects (Server.Isolated account s₀ t₀) (v.deactivate account stage) := by
  refine respects_bind Server.use_respects fun _ => respects_get ?_ fun s => ?_
  · intro s t h
    rw [h.records]
  · cases (s.records account).stage? stage.shown with
    | none => exact respects_pure _
    | some x =>
      refine respects_ite (respects_pure _) ?_
      refine respects_bind (Deactivation.run_respects _ _) fun r => ?_
      cases r <;> exact respects_pure _

namespace Call

/-- Whether a call opens a subscription. -/
def subscribes : Call → Bool
  | .subscribe _ _ => true
  | _ => false

/-- What a history of calls is answered, call by call. -/
def answers : List (Service × Call) → Server → List (Except Failure Reply)
  | [], _ => []
  | (v, c) :: rest, s => (c.perform v s).1 :: answers rest (c.perform v s).2

end Call

theorem perform_respects (v : Service) {c : Call} (hc : c.account = account)
    (hn : c.subscribes = false) : Respects (Server.Isolated account s₀ t₀) (c.perform v) := by
  subst hc
  cases c with
  | move now q => exact reply_respects _ (move_respects v now rfl)
  | board a b => exact reply_respects _ (board_respects v b)
  | stages a b => exact reply_respects _ (stages_respects v b)
  | deactivate a stage => exact reply_respects _ (deactivate_respects v stage)
  | subscribe a b => cases hn

theorem answers_respects (history : List (Service × Call))
    (hc : ∀ e ∈ history, e.2.account = account ∧ e.2.subscribes = false) :
    Respects (Server.Isolated account s₀ t₀)
      fun s => (Call.answers history s, Call.runAll history s) := by
  induction history with
  | nil => exact fun _ _ h => ⟨rfl, h⟩
  | cons e history ih =>
    intro s t h
    obtain ⟨v, c⟩ := e
    obtain ⟨hacc, hsub⟩ := hc _ List.mem_cons_self
    obtain ⟨hr, hst⟩ := perform_respects v hacc hsub s t h
    obtain ⟨hrest, hend⟩ := ih (fun e he => hc e (List.mem_cons_of_mem _ he)) _ _ hst
    refine ⟨?_, hend⟩
    exact congrArg₂ List.cons hr hrest

end Service

/-- The server with one account and no other. -/
def Server.alone (account : String) (s : Server) : Server :=
  { s with storage := { s.storage with repository :=
    { s.storage.repository with accounts := [(account, s.records account)] } } }

theorem Server.records_alone (account : String) (s : Server) :
    (s.alone account).records account = s.records account := by
  unfold alone records Storage.records Repository.records
  rw [Entries.get?, if_pos rfl, Option.getD_some]

namespace Service

/-- Without a folder, two servers that agree on an account's records and on the source of
positions answer every history of the account's calls alike, as if no other account were there,
and are left with the same records of the account. On both of them all other accounts keep their
records. -/
theorem other_accounts_hidden {account : String} {s t : Server} (hs : s.storage.folder = none)
    (ht : t.storage.folder = none) (hrec : s.records account = t.records account)
    (halloc : s.allocator = t.allocator) (history : List (Service × Call))
    (hc : ∀ e ∈ history, e.2.account = account ∧ e.2.subscribes = false) :
    Call.answers history s = Call.answers history t ∧
      Call.answers history s = Call.answers history (s.alone account) ∧
      (Call.runAll history s).records account = (Call.runAll history t).records account ∧
      ∀ other, other ≠ account →
        (Call.runAll history s).records other = s.records other ∧
          (Call.runAll history t).records other = t.records other := by
  -- the two servers against each other, and one of them against itself with the account alone
  have hst : s.Isolated account t s t := ⟨⟨⟨hs, ht⟩, hrec, fun _ _ => rfl, fun _ _ => rfl⟩, halloc⟩
  have halone : s.Isolated account (s.alone account) s (s.alone account) :=
    ⟨⟨⟨hs, hs⟩, (s.records_alone account).symm, fun _ _ => rfl, fun _ _ => rfl⟩, rfl⟩
  obtain ⟨hanswers, hend⟩ := answers_respects history hc s t hst
  obtain ⟨hlone, -⟩ := answers_respects history hc s _ halone
  exact ⟨hanswers, hlone, hend.records, fun other ho =>
    ⟨hend.storage.left other ho, hend.storage.right other ho⟩⟩

/-- A server that an account shares with another, which has card and stage 7. -/
def shared : Server where
  storage := {
    repository := {
      accounts := [
        ("acme", {
          cards := [("1", ⟨"1", "sales", "won", 1.0, 0, []⟩)]
          stages := [("1", { id := "1", board := "sales", key := "won", name := "Won" })] }),
        ("globex", {
          cards := [("7", ⟨"7", "sales", "won", 2.0, 0, []⟩)]
          stages := [("7", { id := "7", board := "sales", key := "lost", name := "Lost" })] })]
      nextStage := 8 } }

/-- What the first account asks of the card and the stage of the other, and of its own board. -/
def prying : List (Service × Call) :=
  [({}, .move 0.0 { account := "acme", board := "sales", card := "7", stage := "won" }),
   ({}, .deactivate "acme" "7"),
   ({}, .board "acme" "sales")]

theorem hidden_prying :
    shared.storage.folder = none ∧ (shared.alone "acme").records "globex" = {} ∧
      (∀ e ∈ prying, e.2.account = "acme" ∧ e.2.subscribes = false) ∧
      Call.answers prying shared = Call.answers prying (shared.alone "acme") ∧
      (Call.answers prying shared)[0]? = some (.ok (.refused (.noCard "7"))) ∧
      (Call.runAll prying shared).records "globex" = shared.records "globex" := by
  have hc : ∀ e ∈ prying, e.2.account = "acme" ∧ e.2.subscribes = false := by
    simp only [prying, List.forall_mem_cons]
    exact ⟨⟨rfl, rfl⟩, ⟨rfl, rfl⟩, ⟨rfl, rfl⟩, by simp⟩
  obtain ⟨hanswers, -, -, hothers⟩ := @other_accounts_hidden "acme" shared (shared.alone "acme")
    rfl rfl rfl rfl prying hc
  exact ⟨rfl, rfl, hc, hanswers, rfl, (hothers "globex" (by decide)).1⟩

end Service

end Kanban
