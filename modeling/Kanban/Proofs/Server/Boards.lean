import Kanban.Proofs.Channel.Registry
import Kanban.Proofs.Server.Sending

/-!
# Kanban.Proofs.Server.Boards — the boards that an operation has to do with

A transition is asked for on a board, and a deactivation is that of a stage of a board. What they work
on is found on the way: the card, the target stage, the fallback of a stage and the cards that it takes
along. All of it is of that board, on every path, also where the operation is refused or breaks off
halfway, and so is all that is told of it.

* `Records.Within` — records that differ on some boards only.
* `Transition.stageKeys_run` — the stages that a refused transition tells of.
* `Deactivation.storage_run`, `Deactivation.run_replies` — what a deactivation stores and tells.
-/

namespace Kanban

/-! ## Records of some boards -/

namespace Records

variable {allowed : Key → Prop} {r r' : Records}

/-- Records that differ only in cards and stages on some boards. No card or stage has come, gone or
changed its board. -/
structure Within (allowed : Key → Prop) (r r' : Records) : Prop where
  cards : ∀ id, r'.card? id = r.card? id ∨ ∃ c d, r.card? id = some c ∧ r'.card? id = some d ∧
    d.board = c.board ∧ allowed c.board
  stages : ∀ id, r'.stage? id = r.stage? id ∨ ∃ x y, r.stage? id = some x ∧ r'.stage? id = some y ∧
    y.board = x.board ∧ allowed x.board

theorem Within.refl (allowed : Key → Prop) (r : Records) : Within allowed r r :=
  ⟨fun _ => .inl rfl, fun _ => .inl rfl⟩

/-- A card is stored over itself. -/
theorem within_putCard {c d : Card} (hc : r.card? c.id = some c) (hid : d.id = c.id)
    (hb : d.board = c.board) (ha : allowed c.board) : Within allowed r (r.putCard d) where
  cards := by
    intro id
    rw [card?_putCard, hid]
    by_cases h : id = c.id
    · subst h
      exact .inr ⟨c, d, hc, if_pos rfl, hb, ha⟩
    · exact .inl (if_neg h)
  stages := fun _ => .inl rfl

/-- A card that a deactivation carries is on the board of the stage. -/
theorem card?_of_carried (hf : r.Filed) {stage : Stage} {id : String} (h : id ∈ r.carried stage) :
    ∃ c, r.card? id = some c ∧ c.board = stage.board := by
  obtain ⟨c, hc, rfl⟩ := List.mem_map.1 h
  obtain ⟨hm, hb, -⟩ := cardsIn_mem.1 hc
  exact ⟨c, hf.card_mem.2 ⟨hm, rfl⟩, hb⟩

/-- A stage is closed, and some of its cards are carried. -/
theorem within_foldPart (hf : r.Filed) {stage : Stage} (hs : r.stage? stage.id = some stage)
    (ha : allowed stage.board) {ids : List String} (hids : ids ⊆ r.carried stage) (fallback : Key) :
    Within allowed r (r.foldPart stage fallback ids) where
  cards := by
    intro id
    have hget := card?_restage (filed_putStage hf { stage with active := false }) stage.key fallback
      ids id
    have hsame : (r.putStage { stage with active := false }).card? id = r.card? id := rfl
    rw [hsame] at hget
    -- a card that is carried stays on its board, and any other is untouched
    by_cases hid : id ∈ ids
    · obtain ⟨c, hc, hb⟩ := card?_of_carried hf (hids hid)
      rw [if_pos hid, hc] at hget
      exact .inr ⟨c, _, hc, hget, board_restaged _ _ _, hb ▸ ha⟩
    · rw [if_neg hid] at hget
      exact .inl hget
  stages := by
    intro id
    -- of the stages only the closed one has changed
    by_cases hid : id = stage.id
    · subst hid
      exact .inr ⟨stage, _, hs, stage?_foldPart stage fallback ids r, rfl, ha⟩
    · left
      unfold stage?
      rw [stages_foldPart]
      exact Entries.get?_put_of_ne hid _ _

end Records

/-! ## Replies -/

namespace Refusal

/-- The stage keys that a refusal tells: those that are listed as available, beside which the key that
was asked for is only repeated, or else the key of the stage that it is about. -/
def stageKeys (r : Refusal) : List Key :=
  match Entries.get? "available_stages" r.details with
  | some (.list keys) => keys
  | _ => (Entries.get? "stage_key" r.details).toList

end Refusal

/-! ## Moves -/

namespace Transition

variable {now : Float} {announce : Bool} {account card : String} {target board : Key} {d : Directive}
  {s : Server}

/-- A transition opens no subscription. -/
theorem length_run (now : Float) (announce : Bool) (account card : String) (target : Key)
    (d : Directive) (board : Option Key) (s : Server) :
    (run now announce account card target d board s).2.channel.subscriptions.length =
      s.channel.subscriptions.length := by
  obtain ⟨a, ha⟩ := Server.plan_frame now account card target d board s
  unfold run
  cases hplan : plan now account card target d board s with
  | mk r u =>
    obtain rfl : u = { s with allocator := a } := (congrArg Prod.snd hplan).symm.trans ha
    cases r with
    | error e => rfl
    | ok p =>
      dsimp only
      rcases commit_outcome announce target (.ok ()) p { s with allocator := a } with
        ⟨e, t, hc, -⟩ | ⟨c, t, -, -, -, -, hc⟩
      · rw [hc]
      · rw [hc]
        cases announce with
        | false => rfl
        | true => exact Channel.length_publish _ _ _

/-- A refused plan tells of no stages but the open ones of the board. -/
theorem stageKeys_plan {e : Refusal}
    (h : (plan now account card target d (some board) s).1 = .error e) {k : Key}
    (hk : k ∈ e.stageKeys) : k ∈ available board (s.records account) := by
  unfold plan at h
  dsimp only at h
  split at h
  · obtain rfl := Except.error.inj h
    cases hk
  · split at h
    · obtain rfl := Except.error.inj h
      cases hk
    · split at h
      · obtain rfl := Except.error.inj h
        exact hk
      · cases h

/-- So does a refusal to store what was planned. -/
theorem stageKeys_refusal {p : Plan} {f : Failure} {r : Records} {k : Key}
    (hk : k ∈ (refusal p target f r).stageKeys) : k ∈ available p.board r := by
  unfold refusal at hk
  split at hk
  · split at hk
    · exact hk
    · cases hk
  · split at hk <;> cases hk

/-- A refused transition tells of no stages but the open ones of the board. -/
theorem stageKeys_run {e : Refusal}
    (h : (run now announce account card target d (some board) s).1 = .error e) {k : Key}
    (hk : k ∈ e.stageKeys) : k ∈ available board (s.records account) := by
  obtain ⟨a, ha⟩ := Server.plan_frame now account card target d (some board) s
  unfold run at h
  cases hplan : plan now account card target d (some board) s with
  | mk r u =>
    obtain rfl : u = { s with allocator := a } := (congrArg Prod.snd hplan).symm.trans ha
    rw [hplan] at h
    cases r with
    | error f =>
      obtain rfl : f = e := Except.error.inj h
      exact stageKeys_plan (congrArg Prod.fst hplan) hk
    | ok p =>
      have hp := congrArg Prod.fst hplan
      obtain ⟨rfl, rfl⟩ := Server.plan_names hp
      obtain rfl := plan_board hp
      dsimp only at h
      -- the records to which a refusal looks are those from before, since nothing was stored
      have hcommit := commit_outcome announce target (.ok ()) p { s with allocator := a }
      unfold commit at h hcommit
      cases hs : store (.ok ()) p { s with allocator := a } with
      | mk r t =>
        rw [hs] at h hcommit
        cases r with
        | ok c => cases h
        | error f =>
          rcases hcommit with ⟨e', u, hu, hut⟩ | ⟨c, u, -, -, -, -, hu⟩
          · obtain rfl : t = { s with allocator := a, storage := u } := congrArg Prod.snd hu
            have hr : Server.records p.account { s with allocator := a, storage := u } =
                s.records p.account := hut.records p.account
            obtain rfl := Except.error.inj h
            rw [← hr]
            exact stageKeys_refusal hk
          · cases congrArg Prod.fst hu

end Transition

/-! ## Deactivations -/

namespace Storage

variable {account : String} {s : Storage}

/-- The cards that are restaged are among those that were to be. -/
theorem subset_restageAll {source target : Key} {ids l : List String}
    (h : (restageAll account source target ids s).1 = .ok l) : l ⊆ ids := by
  induction ids generalizing s l with
  | nil =>
    obtain rfl := Except.ok.inj h
    exact List.Subset.refl _
  | cons id ids ih =>
    -- a card that is gone or elsewhere by now is passed over
    have hskip (hrun : (restageAll account source target ids s).1 = .ok l) : l ⊆ id :: ids :=
      fun i hi => List.mem_cons_of_mem _ (ih hrun hi)
    rw [restageAll, Operation.bind_apply, Operation.get_apply] at h
    dsimp only at h
    cases hc : (s.records account).card? id with
    | none =>
      rw [hc] at h
      exact hskip h
    | some c =>
      rw [hc] at h
      dsimp only at h
      rw [Operation.if_apply] at h
      split at h
      · exact hskip h
      · rw [Operation.bind_apply] at h
        split at h
        · rename_i t _
          rw [Operation.bind_apply] at h
          cases hrest : restageAll account source target ids t with
          | mk x u =>
            rw [hrest] at h
            cases x with
            | error e => cases h
            | ok rest =>
              obtain rfl := Except.ok.inj h
              exact List.cons_subset_cons _ (ih (congrArg Prod.fst hrest))
        · cases h

end Storage

namespace Deactivation

open Operation

variable {account id : String} {s : Server}

/-- The storage after a deactivation: nothing was stored, or the stage was closed and some of its cards
were carried. -/
theorem storage_run (announce : Bool) (id : String) (hf : (s.records account).Filed) :
    s.storage.Untouched (run announce account id s).2.storage ∨
      ∃ stage fallback ids, Folds account id s stage fallback ∧
        ids ⊆ (s.records account).carried stage ∧
        s.storage.Written account ((s.records account).foldPart stage fallback ids)
          (run announce account id s).2.storage := by
  have hout := outcome announce account id hf
  generalize run announce account id s = x at hout
  -- the outcome decides which cards were carried: none, some or all
  cases hout with
  | idle r => exact .inl (.refl _)
  | refused stage fallback hs e t ht he => exact .inl ht
  | cut stage fallback hs e t done i rest he hi ht =>
    exact .inr ⟨stage, fallback, done, hs, by simp [hi], ht⟩
  | folded stage fallback hs t d hd hfb ht =>
    refine .inr ⟨stage, fallback, _, hs, List.Subset.refl _, ?_⟩
    cases announce <;> exact ht

/-- A deactivation opens no subscription. -/
theorem length_run (announce : Bool) (id : String) (hf : (s.records account).Filed) :
    (run announce account id s).2.channel.subscriptions.length = s.channel.subscriptions.length := by
  have hout := outcome announce account id hf
  generalize run announce account id s = x at hout
  cases hout with
  | idle r => rfl
  | refused => rfl
  | cut => rfl
  | folded stage fallback hs t d hd hfb ht =>
    cases announce with
    | false => rfl
    | true => exact Channel.length_publish _ _ _

/-- What is told of a deactivation: the stage, the key of another stage of its board, and cards of the
board. -/
structure Told (r : Records) (id : String) (d : Deactivation) : Prop where
  stage : r.stage? id = some d.stage
  fallback : ∀ k ∈ d.fallback, ∃ x ∈ Entries.values r.stages, x.key = k ∧ x.board = d.stage.board
  migrated : ∀ i ∈ d.migrated, ∃ c, r.card? i = some c ∧ c.board = d.stage.board

/-- What a deactivation is answered. One that cannot be carried out tells of the stage at most. -/
theorem run_replies (announce : Bool) (hf : (s.records account).Filed)
    {r : Except (Refusal × Key) Deactivation} (h : (run announce account id s).1 = .ok r) :
    match r with
    | .ok d => Told (s.records account) id d
    | .error (_, k) => k = .null ∨ ∃ x, (s.records account).stage? id = some x ∧ x.key = k := by
  unfold run at h
  rw [bind_apply, get_apply] at h
  dsimp only at h
  cases hs : (s.records account).stage? id with
  | none =>
    rw [hs] at h
    obtain rfl := Except.ok.inj h
    exact .inl rfl
  | some stage =>
    obtain ⟨-, rfl⟩ := hf.stage_mem.1 hs
    rw [hs] at h
    dsimp only at h
    rw [if_apply] at h
    split at h
    · obtain rfl := Except.ok.inj h
      exact ⟨hs, nofun, nofun⟩
    · cases hd : (s.records account).defaultStage? stage.board [stage.id] with
      | none =>
        rw [hd] at h
        obtain rfl := Except.ok.inj h
        exact .inr ⟨stage, rfl, rfl⟩
      | some fallback =>
        rw [hd] at h
        obtain ⟨hm, hb, -⟩ := Records.mem_activeStages.1 (List.mem_of_find?_eq_some hd)
        dsimp only at h
        rw [bind_apply, discard_apply, Server.onStorage_apply] at h
        rcases close_cases hs with ⟨e, u, hu, -⟩ | ⟨a, u, hu, huw⟩
        · rw [hu] at h
          cases h
        · rw [hu] at h
          dsimp only at h
          rw [bind_apply, Server.onStorage_apply] at h
          have hr : u.records account = (s.records account).close stage := huw.records_self
          dsimp only at h
          rw [restage_closed hr] at h
          cases hall : Storage.restageAll account stage.key fallback.key
              ((s.records account).carried stage) u with
          | mk x t =>
            rw [hall] at h
            cases x with
            | error e => cases h
            | ok l =>
              -- what is told to have moved was in the stage before
              have hsub := Storage.subset_restageAll (congrArg Prod.fst hall)
              have hr : r = .ok { stage, fallback := some fallback.key, migrated := l } := by
                cases announce <;> exact (Except.ok.inj h).symm
              subst hr
              refine ⟨hs, ?_, fun i hi => Records.card?_of_carried hf (hsub hi)⟩
              rintro k hk
              obtain rfl := Option.some.inj hk
              exact ⟨fallback, hm, rfl, hb⟩

end Deactivation

end Kanban
