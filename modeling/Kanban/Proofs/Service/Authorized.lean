import Kanban.Proofs.Server.Boards
import Kanban.Proofs.Service.Calls

/-!
# Kanban.Proofs.Service.Authorized — calls keep to the boards that may be used

Who may use a board is asked once for a call, about one board: the one that the request names, the
default, or that of a stage. Whatever the call changes, tells or opens is of that board. A call about a
board that may not be used changes nothing; a deactivation has to read the snapshot of the account to
find out, which changes no records in use.

* `Reply.Tells` — what a reply tells of cards and stages.
* `Confined`, `Inert` — what a call leaves, and what a call that is denied leaves.
* `confined_perform`, `inert_of_denied` — calls one by one.
* `authorized` — calls after any history.
-/

namespace Kanban

namespace Service

variable {allowed : Key → Prop} {account : String} {v : Service} {s t u : Server}

namespace Reply

/-- The cards in a reply. -/
def cards : Reply → List Card
  | .moved c => [c]
  | .listed l => l.cards.flatMap (·.2)
  | _ => []

/-- The stages in a reply. -/
def stages : Reply → List Stage
  | .listed l => l.stages
  | .deactivated d => [d.stage]
  | _ => []

/-- The keys in a reply that are those of stages, apart from the stages. -/
def stageKeys : Reply → List Key
  | .listed l => Entries.keys l.cards
  | .deactivated d => d.fallback.toList
  | .refused r => r.stageKeys
  | _ => []

/-- The ids of cards in a reply, apart from the cards. -/
def cardIds : Reply → List String
  | .deactivated d => d.migrated
  | _ => []

/-- What a reply tells of cards and stages, as the records had them, is of some boards only. -/
structure Tells (allowed : Key → Prop) (r : Records) (x : Reply) : Prop where
  cards : ∀ c ∈ x.cards, allowed c.board ∧ ∃ d, r.card? c.id = some d ∧ d.board = c.board
  stages : ∀ y ∈ x.stages, allowed y.board ∧ r.stage? y.id = some y
  stageKeys : ∀ k ∈ x.stageKeys, ∃ y ∈ Entries.values r.stages, y.key = k ∧ allowed y.board
  cardIds : ∀ id ∈ x.cardIds, ∃ c, r.card? id = some c ∧ allowed c.board

theorem tells_subscribed (n : Nat) (r : Records) : (subscribed n).Tells allowed r :=
  ⟨nofun, nofun, nofun, nofun⟩

theorem tells_refused {x : Refusal} {r : Records}
    (h : ∀ k ∈ x.stageKeys, ∃ y ∈ Entries.values r.stages, y.key = k ∧ allowed y.board) :
    (refused x).Tells allowed r :=
  ⟨nofun, nofun, h, nofun⟩

end Reply

/-! ## What calls leave -/

/-- What a call leaves of a server, and what it is answered, has to do with some boards of its account
only. -/
structure Confined (allowed : Key → Prop) (account : String) (s t : Server)
    (x : Except Failure Reply) : Prop where
  /-- Only cards and stages on these boards are changed, in memory or in the snapshot. -/
  inUse : (s.storage.inUse account).Within allowed (t.storage.inUse account)
  /-- Records of other accounts are left alone in memory, and in the folder if they have a file of
  their own. -/
  others : ∀ a, a ≠ account → t.records a = s.records a
  elsewhere : ∀ a, Snapshot.fileName a ≠ Snapshot.fileName account →
    t.storage.inUse a = s.storage.inUse a
  told : ∀ r, x = .ok r → r.Tells allowed (s.storage.inUse account)
  /-- A new subscription is for one of these boards. -/
  subscribed : ∀ n q, s.channel.subscriptions.length ≤ n → t.channel.subscription? n = some q →
    ∃ b, allowed b ∧ q.key = Channel.keyOf account b

/-- A call has left everything as it was. The snapshot of its account may have been read. -/
structure Inert (account : String) (s t : Server) : Prop where
  inUse : ∀ a, t.storage.inUse a = s.storage.inUse a
  others : ∀ a, a ≠ account → t.records a = s.records a
  folder : t.storage.folder = s.storage.folder
  allocator : t.allocator = s.allocator
  channel : t.channel = s.channel

theorem inert_refl (account : String) (s : Server) : Inert account s s :=
  ⟨fun _ => rfl, fun _ _ => rfl, rfl, rfl, rfl⟩

theorem inert_use (account : String) (s : Server) : Inert account s (Server.use account s).2 where
  inUse := fun a => Storage.inUse_use account a s.storage
  others := fun a ha => ((Storage.framed_use account s.storage).2 a ha).1
  folder := (Storage.framed_use account s.storage).1
  allocator := rfl
  channel := rfl

theorem not_subscription {c : Channel} {n : Nat} (hn : c.subscriptions.length ≤ n)
    {q : Subscription} : ¬ c.subscription? n = some q := by
  unfold Channel.subscription?
  rw [List.getElem?_eq_none hn]
  exact nofun

theorem Inert.confined (h : Inert account s t) {x : Except Failure Reply}
    (hx : ∀ r, x = .ok r → r.Tells allowed (s.storage.inUse account)) :
    Confined allowed account s t x where
  inUse := h.inUse account ▸ Records.Within.refl allowed _
  others := h.others
  elsewhere := fun a _ => h.inUse a
  told := hx
  subscribed := fun _ _ hn hq => absurd (h.channel ▸ hq) (not_subscription hn)

/-- What a call does once its account is used. -/
theorem Confined.of_use {x : Except Failure Reply}
    (h : Confined allowed account (Server.use account s).2 t x) : Confined allowed account s t x where
  inUse := by
    rw [← (inert_use account s).inUse account]
    exact h.inUse
  others := fun a ha => (h.others a ha).trans ((inert_use account s).others a ha)
  elsewhere := fun a ha => (h.elsewhere a ha).trans ((inert_use account s).inUse a)
  told := by
    rw [← (inert_use account s).inUse account]
    exact h.told
  subscribed := h.subscribed

/-! ## Transitions and deactivations -/

/-- A key that a board lists as available is that of one of its stages. -/
theorem stage_of_available {board k : Key} {r : Records}
    (h : k ∈ Transition.available board r) :
    ∃ y ∈ Entries.values r.stages, y.key = k ∧ y.board = board := by
  obtain ⟨y, hy, rfl⟩ := List.mem_map.1 h
  obtain ⟨hm, hb, -⟩ := Records.mem_activeStages.1 hy
  exact ⟨y, hm, rfl, hb⟩

/-- What was stored for an account in use is confined to the boards on which the records differ. -/
theorem confined_of_written {r : Records} {x : Except Failure Reply}
    (hl : s.storage.repository.loaded.contains account = true)
    (ht : s.storage.Written account r t.storage) (hr : (s.records account).Within allowed r)
    (hc : t.channel.subscriptions.length = s.channel.subscriptions.length)
    (hx : ∀ y, x = .ok y → y.Tells allowed (s.records account)) :
    Confined allowed account s t x where
  inUse := by
    rw [Storage.inUse_of_loaded hl, ht.inUse_self hl]
    exact hr
  others := fun a ha => ht.records_of_ne ha
  elsewhere := fun a ha => ht.inUse_of_ne (fun h => ha (congrArg _ h)) ha
  told := by
    rw [Storage.inUse_of_loaded hl]
    exact hx
  subscribed := fun _ _ hn hq => absurd hq (not_subscription (hc ▸ hn))

/-- Where nothing was stored, only what is answered is to be looked at. -/
theorem confined_of_untouched {x : Except Failure Reply}
    (hl : s.storage.repository.loaded.contains account = true)
    (ht : s.storage.Untouched t.storage)
    (hc : t.channel.subscriptions.length = s.channel.subscriptions.length)
    (hx : ∀ y, x = .ok y → y.Tells allowed (s.records account)) :
    Confined allowed account s t x where
  inUse := ht.inUse account ▸ Records.Within.refl allowed _
  others := fun a _ => ht.records a
  elsewhere := fun a _ => ht.inUse a
  told := by
    rw [Storage.inUse_of_loaded hl]
    exact hx
  subscribed := fun _ _ hn hq => absurd hq (not_subscription (hc ▸ hn))

/-- A transition on a board that may be used. -/
theorem confined_run (hl : s.storage.repository.loaded.contains account = true)
    (hf : (s.records account).Filed) {board : Key} (hb : allowed board) (now : Float) (card : String)
    (target : Key) (d : Directive) :
    Confined allowed account s (Transition.run now true account card target d (some board) s).2
      (.ok (Reply.of .moved (Transition.run now true account card target d (some board) s).1)) := by
  have hlen := Transition.length_run now true account card target d (some board) s
  rcases Transition.run_outcome now true account card target board d s with
    ⟨e, t, hrun, -, ht⟩ | ⟨c, x, t, hc, rfl, ho, -, hrun, ht⟩
  · have hkeys := fun k => Transition.stageKeys_run (k := k) (congrArg Prod.fst hrun)
    rw [hrun] at hlen ⊢
    refine confined_of_untouched hl ht hlen fun y hy => ?_
    obtain rfl := Except.ok.inj hy
    refine Reply.tells_refused fun k hk => ?_
    obtain ⟨y, hy, rfl, hyb⟩ := stage_of_available (hkeys k hk)
    exact ⟨y, hy, rfl, hyb ▸ hb⟩
  · rw [hrun] at hlen ⊢
    have hid := (hf.card_mem.1 hc).2
    rw [← hid] at hc
    refine confined_of_written hl ht (Records.within_putCard hc rfl rfl hb) hlen fun y hy => ?_
    obtain rfl := Except.ok.inj hy
    refine ⟨fun e he => ?_, nofun, nofun, nofun⟩
    obtain rfl := List.mem_singleton.1 he
    exact ⟨hb, c, hc, rfl⟩

/-- A deactivation of a stage on a board that may be used. -/
theorem confined_deactivation (hl : s.storage.repository.loaded.contains account = true)
    (hf : (s.records account).Filed) {stage : Stage}
    (hs : (s.records account).stage? stage.id = some stage) (hb : allowed stage.board) :
    Confined allowed account s (Deactivation.run true account stage.id s).2
      ((Deactivation.run true account stage.id s).1.map
        fun r => Reply.of .deactivated (r.mapError stageRefusal)) := by
  have htells (y : Reply) (hy : (Deactivation.run true account stage.id s).1.map
      (fun r => Reply.of .deactivated (r.mapError stageRefusal)) = .ok y) :
      y.Tells allowed (s.records account) := by
    cases hrun : (Deactivation.run true account stage.id s).1 with
    | error e =>
      rw [hrun] at hy
      cases hy
    | ok r =>
      have hreplies := Deactivation.run_replies true hf hrun
      rw [hrun] at hy
      obtain rfl := Except.ok.inj hy
      cases r with
      | ok d =>
        obtain ⟨hd, hfallback, hmigrated⟩ := hreplies
        have hstage : d.stage = stage := Option.some.inj (hd.symm.trans hs)
        refine ⟨nofun, ?_, ?_, ?_⟩
        · intro y hy
          obtain rfl := List.mem_singleton.1 hy
          rw [hstage]
          exact ⟨hb, hs⟩
        · intro k hk
          obtain ⟨y, hy, rfl, hyb⟩ := hfallback k (Option.mem_toList.1 hk)
          exact ⟨y, hy, rfl, by rw [hyb, hstage]; exact hb⟩
        · intro i hi
          obtain ⟨c, hc, hcb⟩ := hmigrated i hi
          exact ⟨c, hc, by rw [hcb, hstage]; exact hb⟩
      | error x =>
        obtain ⟨r, k⟩ := x
        refine Reply.tells_refused fun k' hk' => ?_
        by_cases hk : k.given
        · -- the key that is told is that of the stage
          have hkeys : (stageRefusal (r, k)).stageKeys = [k] := by
            simp [stageRefusal, hk, Refusal.stageKeys, Entries.get?]
          rw [hkeys] at hk'
          obtain rfl := List.mem_singleton.1 hk'
          rcases hreplies with rfl | ⟨x, hx, rfl⟩
          · cases hk
          · obtain rfl := Option.some.inj (hx.symm.trans hs)
            exact ⟨x, (hf.stage_mem.1 hx).1, rfl, hb⟩
        · have hkeys : (stageRefusal (r, k)).stageKeys = [] := by
            simp [stageRefusal, hk, Refusal.stageKeys]
          rw [hkeys] at hk'
          cases hk'
  have hlen := Deactivation.length_run true stage.id hf
  rcases Deactivation.storage_run true stage.id hf with
    ht | ⟨x, fallback, ids, hx, hids, ht⟩
  · exact confined_of_untouched hl ht hlen htells
  · obtain rfl := Option.some.inj (hx.found.symm.trans hs)
    exact confined_of_written hl ht (Records.within_foldPart hf hs hb hids fallback) hlen htells

/-- What is listed of a board. -/
theorem tells_listed {l : Listing} {r : Records} (hf : r.Filed) (hb : allowed l.board)
    (hstages : ∀ y ∈ l.stages, y ∈ Entries.values r.stages ∧ y.board = l.board)
    (hcards : ∀ e ∈ l.cards, (∃ y ∈ l.stages, y.key = e.1) ∧
      ∀ c ∈ e.2, c ∈ Entries.values r.cards ∧ c.board = l.board) :
    (Reply.listed l).Tells allowed r where
  cards := by
    intro c hc
    obtain ⟨e, he, hce⟩ := List.mem_flatMap.1 hc
    obtain ⟨hm, hcb⟩ := (hcards e he).2 c hce
    exact ⟨hcb ▸ hb, c, hf.card_mem.2 ⟨hm, rfl⟩, rfl⟩
  stages := by
    intro y hy
    obtain ⟨hm, hyb⟩ := hstages y hy
    exact ⟨hyb ▸ hb, hf.stage_mem.2 ⟨hm, rfl⟩⟩
  stageKeys := by
    intro k hk
    obtain ⟨e, he, rfl⟩ := List.mem_map.1 hk
    obtain ⟨y, hy, hyk⟩ := (hcards e he).1
    obtain ⟨hm, hyb⟩ := hstages y hy
    exact ⟨y, hm, hyk, hyb ▸ hb⟩
  cardIds := nofun

theorem mem_of_firstCards {limit : Int} {cards : List Card} {c : Card}
    (h : c ∈ firstCards limit cards) : c ∈ cards := by
  unfold firstCards at h
  split at h <;> exact List.mem_of_mem_take h

theorem authorize_of_checkMove {q : MoveRequest} {d : Directive} (h : v.checkMove q = .ok d) :
    v.authorize q.account (v.boardOf q.board) = true := by
  unfold checkMove at h
  split at h
  · assumption
  · cases h

/-- A move that does not pass its checks is told of no stages. -/
theorem stageKeys_of_checkMove {q : MoveRequest} {r : Refusal} (h : v.checkMove q = .error (.ok r)) :
    r.stageKeys = [] := by
  unfold checkMove at h
  split at h
  · split at h
    · split at h
      · cases h
      · obtain rfl := Except.ok.inj (Except.error.inj h)
        rfl
      · obtain rfl := Except.ok.inj (Except.error.inj h)
        rfl
      · cases h
    · obtain rfl := Except.ok.inj (Except.error.inj h)
      rfl
  · obtain rfl := Except.ok.inj (Except.error.inj h)
    rfl

theorem Reply.tells_silent {x : Refusal} (h : x.stageKeys = []) (r : Records) :
    (Reply.refused x).Tells allowed r :=
  Reply.tells_refused fun k hk => by rw [h] at hk; cases hk

/-- A call that is refused on the spot, or fails, and has at most read a snapshot. -/
theorem Inert.refused (h : Inert account s t) {x : Except Failure Reply}
    (hx : ∀ y, x = .ok y → ∃ r : Refusal, y = .refused r ∧ r.stageKeys = []) :
    Confined allowed account s t x := by
  refine h.confined fun y hy => ?_
  obtain ⟨r, rfl, hr⟩ := hx y hy
  exact Reply.tells_silent hr _

theorem Inert.failed (h : Inert account s t) {e : Failure} :
    Confined allowed account s t (.error e) := by
  refine h.refused fun y hy => ?_
  cases hy

/-- The boards that a call may have to do with. -/
def Call.allows (v : Service) (c : Call) (board : Key) : Prop := v.authorize c.account board = true

theorem confined_move (hf : ∀ a, (s.records a).Filed) (v : Service) (now : Float) (q : MoveRequest) :
    Confined ((Call.move now q).allows v) q.account s ((Call.move now q).perform v s).2
      ((Call.move now q).perform v s).1 := by
  simp only [Call.perform]
  rw [map_eq, move_apply]
  cases hcheck : v.checkMove q with
  | error x =>
    cases x with
    | error f => exact (inert_refl _ _).failed
    | ok r =>
      refine (inert_refl _ _).refused fun y hy => ?_
      obtain rfl := Except.ok.inj hy
      exact ⟨r, rfl, stageKeys_of_checkMove hcheck⟩
  | ok d =>
    have hinert := inert_use q.account s
    have hloaded := Storage.loaded_use q.account s.storage
    have hfiled : ((Server.use q.account s).2.records q.account).Filed :=
      Storage.filed_use (hf q.account)
    have hauth : (Call.move now q).allows v (v.boardOf q.board) := authorize_of_checkMove hcheck
    rcases use_cases q.account s with ⟨e, huse⟩ | huse
    · rw [huse]
      exact hinert.failed
    · rw [huse]
      dsimp only
      cases q.card.toText with
      | error f => exact hinert.failed
      | ok card => exact (confined_run hloaded hfiled hauth now card q.stage d).of_use

theorem confined_board (hf : ∀ a, (s.records a).Filed) (v : Service) (account : String) (b : Value) :
    Confined ((Call.board account b).allows v) account s ((Call.board account b).perform v s).2
      ((Call.board account b).perform v s).1 := by
  simp only [Call.perform]
  rw [map_eq, board_apply]
  by_cases hauth : v.authorize account (v.boardOf b) = true
  · rw [if_pos hauth]
    have hinert := inert_use account s
    have hfiled : ((Server.use account s).2.records account).Filed := Storage.filed_use (hf account)
    have hinUse : s.storage.inUse account = (Server.use account s).2.records account := rfl
    rcases use_cases account s with ⟨e, huse⟩ | huse
    · rw [huse]
      exact hinert.failed
    · rw [huse]
      dsimp only
      split
      · refine hinert.confined fun y hy => ?_
        obtain rfl := Except.ok.inj hy
        rw [hinUse]
        generalize (Server.use account s).2.records account = r at hfiled
        refine tells_listed hfiled hauth (fun y hy => ?_) fun e he => ?_
        · obtain ⟨hm, hb, -⟩ := Records.mem_activeStages.1 hy
          exact ⟨hm, hb⟩
        · -- the columns are those of the open stages, each key once
          have hcolumns := Entries.ofList_map
            (fun k => displayOrder below (firstCards v.settings.stageCardLimit
              (r.cardsIn (v.boardOf b) k))) (Transition.available (v.boardOf b) r)
          rw [Transition.available, List.map_map] at hcolumns
          obtain ⟨k, hk, rfl⟩ := List.mem_map.1 (hcolumns ▸ he)
          refine ⟨List.mem_map.1 (Entries.mem_distinct.1 hk), fun c hc => ?_⟩
          obtain ⟨hm, hb, -⟩ := Records.cardsIn_mem.1
            (mem_of_firstCards ((displayOrder_perm _ _).mem_iff.1 hc))
          exact ⟨hm, hb⟩
      · exact hinert.failed
  · rw [if_neg hauth]
    refine (inert_refl _ _).refused fun y hy => ?_
    obtain rfl := Except.ok.inj hy
    exact ⟨_, rfl, rfl⟩

theorem confined_stages (hf : ∀ a, (s.records a).Filed) (v : Service) (account : String)
    (b : Value) :
    Confined ((Call.stages account b).allows v) account s ((Call.stages account b).perform v s).2
      ((Call.stages account b).perform v s).1 := by
  simp only [Call.perform]
  rw [map_eq, stages_apply]
  by_cases hauth : v.authorize account (v.boardOf b) = true
  · rw [if_pos hauth]
    have hinert := inert_use account s
    have hfiled : ((Server.use account s).2.records account).Filed := Storage.filed_use (hf account)
    have hinUse : s.storage.inUse account = (Server.use account s).2.records account := rfl
    rcases use_cases account s with ⟨e, huse⟩ | huse
    · rw [huse]
      exact hinert.failed
    · rw [huse]
      refine hinert.confined fun y hy => ?_
      obtain rfl := Except.ok.inj hy
      rw [hinUse]
      refine tells_listed hfiled hauth (fun y hy => ?_) fun e he => absurd he List.not_mem_nil
      have hy := (Stage.byPosition_perm _).mem_iff.1 hy
      simpa using hy
  · rw [if_neg hauth]
    refine (inert_refl _ _).refused fun y hy => ?_
    obtain rfl := Except.ok.inj hy
    exact ⟨_, rfl, rfl⟩

theorem confined_deactivate (hf : ∀ a, (s.records a).Filed) (v : Service) (account : String)
    (stage : Value) :
    Confined ((Call.deactivate account stage).allows v) account s
      ((Call.deactivate account stage).perform v s).2
      ((Call.deactivate account stage).perform v s).1 := by
  simp only [Call.perform]
  rw [map_eq, deactivate_apply]
  have hinert := inert_use account s
  have hloaded := Storage.loaded_use account s.storage
  have hfiled : ((Server.use account s).2.records account).Filed := Storage.filed_use (hf account)
  rcases use_cases account s with ⟨e, huse⟩ | huse
  · rw [huse]
    exact hinert.failed
  · rw [huse]
    dsimp only
    cases hstage : ((Server.use account s).2.records account).stage? stage.shown with
    | none =>
      refine hinert.refused fun y hy => ?_
      obtain rfl := Except.ok.inj hy
      exact ⟨_, rfl, rfl⟩
    | some x =>
      dsimp only
      by_cases hauth : v.authorize account x.board = true
      · rw [if_pos hauth]
        -- the stage is found under its own id
        have hid := (hfiled.stage_mem.1 hstage).2
        rw [← hid] at hstage
        have hallowed : (Call.deactivate account stage).allows v x.board := hauth
        have hrun := confined_deactivation hloaded hfiled hstage hallowed
        refine Confined.of_use ?_
        cases hr : Deactivation.run true account x.id (Server.use account s).2 with
        | mk r w =>
          rw [hr] at hrun
          cases r <;> exact hrun
      · rw [if_neg hauth]
        refine hinert.refused fun y hy => ?_
        obtain rfl := Except.ok.inj hy
        exact ⟨_, rfl, rfl⟩

theorem confined_subscribe (v : Service) (account : String) (b : Value) (s : Server) :
    Confined ((Call.subscribe account b).allows v) account s
      ((Call.subscribe account b).perform v s).2 ((Call.subscribe account b).perform v s).1 := by
  simp only [Call.perform]
  rw [map_eq, subscribe_apply]
  by_cases hauth : v.authorize account (v.boardOf b) = true
  · rw [if_pos hauth]
    refine ⟨Records.Within.refl _ _, fun _ _ => rfl, fun _ _ => rfl, fun y hy => ?_,
      fun n q hn hq => ?_⟩
    · obtain rfl := Except.ok.inj hy
      exact Reply.tells_subscribed _ _
    · -- there is one number more than before, and that is the subscription asked for
      refine ⟨v.boardOf b, hauth, ?_⟩
      by_cases hm : n = s.channel.subscriptions.length
      · subst hm
        have hself := Channel.subscription?_subscribe_self (Channel.keyOf account (v.boardOf b))
          s.channel
        obtain rfl := Option.some.inj (hself.symm.trans hq)
        rfl
      · rw [Channel.subscription?_subscribe_of_ne hm] at hq
        exact absurd hq (not_subscription hn)
  · rw [if_neg hauth]
    exact (inert_refl _ _).failed

/-- A call keeps to the boards that its caller may use. -/
theorem confined_perform (hf : ∀ a, (s.records a).Filed) (v : Service) (c : Call) :
    Confined (c.allows v) c.account s (c.perform v s).2 (c.perform v s).1 := by
  cases c with
  | move now q => exact confined_move hf v now q
  | board account b => exact confined_board hf v account b
  | stages account b => exact confined_stages hf v account b
  | deactivate account stage => exact confined_deactivate hf v account stage
  | subscribe account b => exact confined_subscribe v account b s

/-- A call about a board that its caller may not use leaves everything as it was, and if it is answered
then by a denial. -/
theorem inert_of_denied {c : Call} {b : Key} (hb : c.board? v s = some b)
    (hauth : ¬ c.allows v b) :
    Inert c.account s (c.perform v s).2 ∧
      ∀ y, (c.perform v s).1 = .ok y → y = .refused (.denied b) := by
  unfold Call.allows at hauth
  cases c with
  | move now q =>
    obtain rfl := Option.some.inj hb
    have hcheck : v.checkMove q = .error (.ok (.denied (v.boardOf q.board))) := if_neg hauth
    simp only [Call.perform]
    rw [map_eq, move_apply, hcheck]
    exact ⟨inert_refl _ _, fun y hy => (Except.ok.inj hy).symm⟩
  | board account x =>
    obtain rfl := Option.some.inj hb
    have hdenied : ¬ v.authorize account (v.boardOf x) = true := hauth
    simp only [Call.perform]
    rw [map_eq, board_apply, if_neg hdenied]
    exact ⟨inert_refl _ _, fun y hy => (Except.ok.inj hy).symm⟩
  | stages account x =>
    obtain rfl := Option.some.inj hb
    have hdenied : ¬ v.authorize account (v.boardOf x) = true := hauth
    simp only [Call.perform]
    rw [map_eq, stages_apply, if_neg hdenied]
    exact ⟨inert_refl _ _, fun y hy => (Except.ok.inj hy).symm⟩
  | deactivate account stage =>
    -- the snapshot is read to find the board of the stage, and that is all
    obtain ⟨x, hx, rfl⟩ := Option.map_eq_some_iff.1 hb
    have hfound : ((Server.use account s).2.records account).stage? stage.shown = some x := hx
    have hdenied : ¬ v.authorize account x.board = true := hauth
    have hinert := inert_use account s
    simp only [Call.perform]
    rw [map_eq, deactivate_apply]
    rcases use_cases account s with ⟨e, huse⟩ | huse
    · rw [huse]
      exact ⟨hinert, fun y hy => by cases hy⟩
    · rw [huse]
      dsimp only
      rw [hfound]
      dsimp only
      rw [if_neg hdenied]
      exact ⟨hinert, fun y hy => (Except.ok.inj hy).symm⟩
  | subscribe account x =>
    obtain rfl := Option.some.inj hb
    have hdenied : ¬ v.authorize account (v.boardOf x) = true := hauth
    simp only [Call.perform]
    rw [map_eq, subscribe_apply, if_neg hdenied]
    exact ⟨inert_refl _ _, fun y hy => by cases hy⟩

/-! ## Histories -/

/-- An account with two boards, each with two stages and a card. -/
def office : Server where
  storage := {
    repository := {
      accounts := [("acme", {
        cards := [("1", ⟨"1", "sales", "new", 1.0, 0, []⟩), ("2", ⟨"2", "staff", "new", 1.0, 0, []⟩)]
        stages := [("1", { id := "1", board := "sales", key := "new", name := "New" }),
          ("2", { id := "2", board := "sales", key := "won", name := "Won", position := 1 }),
          ("3", { id := "3", board := "staff", key := "new", name := "New" }),
          ("4", { id := "4", board := "staff", key := "left", name := "Left", position := 1 })] })]
      loaded := ["acme"]
      nextStage := 5 } }

theorem filed_office (a : String) : (office.records a).Filed := by
  by_cases ha : a = "acme"
  · subst ha
    constructor <;> decide
  · have hnone : office.records a = {} := by
      have hget : Entries.get? a office.storage.repository.accounts = none := by
        simp [office, Entries.get?, Ne.symm ha]
      exact congrArg (·.getD {}) hget
    rw [hnone]
    constructor <;> decide

/-- A service on which one of the boards may be used. -/
def guarded : Service where
  authorize := fun _ b => b = "sales"

/-- A card was moved on the board that is meant when none is named. -/
def busy : List (Service × Call) :=
  [(guarded, .move 1.0 { account := "acme", board := .null, card := "1", stage := "won" })]

/-- Whatever was asked before, under whatever configurations: a call keeps to the boards that its
caller may use under the configuration of the call, and a call about a board that its caller may not use
is denied and leaves everything as it was. -/
theorem authorized (history : List (Service × Call)) (v : Service) (c : Call) (s : Server)
    (hf : ∀ a, (s.records a).Filed) :
    Confined (c.allows v) c.account (Call.runAll history s) (c.perform v (Call.runAll history s)).2
        (c.perform v (Call.runAll history s)).1 ∧
      ∀ b, c.board? v (Call.runAll history s) = some b → ¬ c.allows v b →
        Inert c.account (Call.runAll history s) (c.perform v (Call.runAll history s)).2 ∧
          ∀ y, (c.perform v (Call.runAll history s)).1 = .ok y → y = .refused (.denied b) := by
  have hfiled (a : String) : ((Call.runAll history s).records a).Filed := by
    obtain ⟨acts, hacts⟩ := runAll_acts history s
    rw [hacts]
    exact Act.filed_runAll acts (hf a)
  exact ⟨confined_perform hfiled v c, fun b hb hauth => inert_of_denied hb hauth⟩

/-- The stage of the other board cannot be deactivated after that. -/
theorem authorized_guarded : (∀ a, (office.records a).Filed) ∧
    (Call.deactivate "acme" "3").board? guarded (Call.runAll busy office) = some "staff" ∧
    ¬ (Call.deactivate "acme" "3").allows guarded "staff" ∧
    Inert "acme" (Call.runAll busy office)
      ((Call.deactivate "acme" "3").perform guarded (Call.runAll busy office)).2 := by
  have hboard : (Call.deactivate "acme" "3").board? guarded (Call.runAll busy office) =
      some "staff" := by
    decide +kernel
  have hauth : ¬ (Call.deactivate "acme" "3").allows guarded "staff" := by
    unfold Call.allows
    decide
  have hall := authorized busy guarded (.deactivate "acme" "3") office filed_office
  exact ⟨filed_office, hboard, hauth, (hall.2 "staff" hboard hauth).1⟩

end Service

end Kanban
