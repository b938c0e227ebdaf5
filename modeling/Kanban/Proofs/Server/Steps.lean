import Kanban.Proofs.Operation
import Kanban.Proofs.Server.Records
import Kanban.Transition

/-!
# Kanban.Proofs.Server.Steps — transitions and deactivations

What moving a card and deactivating a stage come to on a server that keeps its records in memory.
Either nothing is stored and nothing published, or the records of one account change in one way and
one event is published on one of its boards.

* `commit_cases` — a planned transition is refused, or stores the card and publishes it.
* `deactivate_cases` — a deactivation changes nothing, or folds the stage and publishes that.
-/

namespace Kanban

namespace Server

variable {s t : Server}

/-- A server on which only the records of one account were changed, and nothing was published. -/
structure Stored (account : String) (r : Records) (s t : Server) : Prop where
  memory : t.storage.folder = none
  records : t.records account = r
  others : ∀ a, a ≠ account → t.records a = s.records a
  channel : t.channel = s.channel

end Server

namespace Storage

open Operation

variable {s : Storage}

/-- Storage on which only the records of one account were changed. -/
structure Stored (account : String) (r : Records) (s t : Storage) : Prop where
  memory : t.folder = none
  records : t.records account = r
  others : ∀ a, a ≠ account → t.records a = s.records a

theorem Stored.trans {account : String} {r r' : Records} {s t u : Storage}
    (h : Stored account r s t) (h' : Stored account r' t u) : Stored account r' s u :=
  ⟨h'.memory, h'.records, fun a ha => (h'.others a ha).trans (h.others a ha)⟩

theorem stored_refl (h : s.folder = none) (account : String) :
    Stored account (s.records account) s s := ⟨h, rfl, fun _ _ => rfl⟩

/-- Without a folder every change is stored. -/
theorem persist_memory (h : s.folder = none) (account : String) (c : Change) :
    ∃ t, persist account c s = (.ok (), t) ∧ Stored account ((s.records account).apply c) s t := by
  refine ⟨{ s with repository :=
    s.repository.setRecords account ((s.records account).apply c) }, ?_, ?_, ?_, ?_⟩
  · simp only [persist, h]
  · exact h
  · exact Repository.records_setRecords_self _ _ _
  · exact fun a ha => Repository.records_setRecords_of_ne ha _ _

/-- A card as a plan stores it. -/
def moved (p : Plan) (c : Card) : Card := { c with stage := p.stage, position := p.position }

/-- Placing a card changes nothing, or stores the card in an open stage of its board. -/
theorem place_cases (h : s.folder = none) (p : Plan) :
    (∃ e, place p.account p.card p.stage (.real p.position) s = (.error e, s)) ∨
      ∃ c t, (s.records p.account).card? p.card = some c ∧
        (s.records p.account).isOpen c.board p.stage ∧
        place p.account p.card p.stage (.real p.position) s = (.ok (moved p c), t) ∧
        Stored p.account ((s.records p.account).putCard (moved p c)) s t := by
  unfold place
  cases hx : checkPosition (.real p.position) with
  | error e => exact .inl ⟨e, by simp only [bind_apply, lift_apply]⟩
  | ok x =>
    -- the position of a plan is a number and passes the check as it is
    have hpos : x = p.position := by
      unfold checkPosition at hx
      rw [Value.toReal_real] at hx
      dsimp only at hx
      split at hx
      · exact (Except.ok.inj hx).symm
      · simp at hx
    cases hc : (s.records p.account).card? p.card with
    | none =>
      refine .inl ⟨.unknownCard p.card, ?_⟩
      simp only [bind_apply, lift_apply, get_apply, hc, throw_apply]
    | some c =>
      cases ho : (s.records p.account).activeStage? c.board p.stage with
      | none =>
        refine .inl ⟨.closedStage p.stage c.board, ?_⟩
        simp only [bind_apply, lift_apply, get_apply, hc, ho, Option.isNone_none, if_true,
          throw_apply]
      | some stage =>
        obtain ⟨t, hp, ht⟩ := persist_memory h p.account { cards := [moved p c] }
        rw [Records.apply_card] at ht
        refine .inr ⟨c, t, rfl, by simp [Records.isOpen, ho], ?_, ht⟩
        have hmoved : ({ c with stage := p.stage, position := x } : Card) = moved p c := by
          rw [hpos, moved]
        simp only [bind_apply, lift_apply, get_apply, hc, ho, Option.isNone_some,
          Bool.false_eq_true, if_false, hmoved, hp, pure_apply]

/-- Without a folder a stage that is there is closed. -/
theorem setStageActive_memory (h : s.folder = none) {account : String} {stage : Stage}
    (hs : (s.records account).stage? stage.id = some stage) :
    ∃ t, setStageActive account stage.id false s = (.ok { stage with active := false }, t) ∧
      Stored account ((s.records account).close stage) s t := by
  obtain ⟨t, hp, ht⟩ := persist_memory h account { stages := [{ stage with active := false }] }
  rw [Records.apply_stage] at ht
  refine ⟨t, ?_, ht⟩
  unfold setStageActive Storage.stage
  simp only [bind_apply, get_apply, hs, pure_apply, hp]

/-- Without a folder cards are restaged one by one. -/
theorem restageAll_memory (h : s.folder = none) (account : String) (source target : Key)
    (ids : List String) :
    ∃ l t, restageAll account source target ids s = (.ok l, t) ∧
      Stored account ((s.records account).restage source target ids) s t := by
  induction ids generalizing s with
  | nil => exact ⟨[], s, rfl, stored_refl h account⟩
  | cons id ids ih =>
    unfold restageAll
    have hcons (r : Records) : r.restage source target (id :: ids) =
        (r.restageOne source target id).restage source target ids := rfl
    cases hc : (s.records account).card? id with
    | none =>
      obtain ⟨l, t, hl, ht⟩ := ih h
      refine ⟨l, t, by simp only [bind_apply, get_apply, hc, hl], ?_⟩
      rw [hcons, Records.restageOne, hc]
      exact ht
    | some c =>
      by_cases hs : c.stage = source
      · -- the rest is restaged in the storage that holds this card
        obtain ⟨u, hu, hsu⟩ := persist_memory h account { cards := [{ c with stage := target }] }
        rw [Records.apply_card] at hsu
        obtain ⟨l, t, hl, ht⟩ := ih hsu.memory
        refine ⟨id :: l, t, ?_, ?_⟩
        · simp only [bind_apply, get_apply, hc, hs, ne_eq, not_true, if_false, hu, hl, pure_apply]
        · rw [hsu.records] at ht
          rw [hcons, Records.restageOne, hc]
          simp only [hs, if_true]
          exact hsu.trans ht
      · obtain ⟨l, t, hl, ht⟩ := ih h
        refine ⟨l, t, by simp only [bind_apply, get_apply, hc, hs, ne_eq, not_false_eq_true,
          if_true, hl], ?_⟩
        rw [hcons, Records.restageOne, hc]
        simp only [hs, if_false]
        exact ht

end Storage

namespace Server

open Operation

variable {s : Server}

theorem Stored.of_storage {account : String} {r : Records} {t : Storage}
    (h : s.storage.Stored account r t) : s.Stored account r { s with storage := t } :=
  ⟨h.memory, h.records, h.others, rfl⟩

/-! ## Transitions -/

/-- Planning changes the source of positions at most. -/
theorem plan_frame (now : Float) (account card : String) (target : Key) (d : Directive)
    (board : Option Key) (s : Server) :
    ∃ a, (Transition.plan now account card target d board s).2 = { s with allocator := a } := by
  unfold Transition.plan
  dsimp only
  split
  · exact ⟨s.allocator, rfl⟩
  · split
    · exact ⟨s.allocator, rfl⟩
    · split
      · exact ⟨s.allocator, rfl⟩
      · exact ⟨_, rfl⟩

/-- A plan is for the account and the card that were named. -/
theorem plan_names {now : Float} {account card : String} {target : Key} {d : Directive}
    {board : Option Key} {s : Server} {p : Plan}
    (h : (Transition.plan now account card target d board s).1 = .ok p) :
    p.account = account ∧ p.card = card := by
  unfold Transition.plan at h
  grind

/-- A planned transition is refused and changes nothing, or it stores the card in an open stage of
its board and publishes it. -/
theorem commit_cases (h : s.storage.folder = none) (announce : Bool) (target : Key)
    (slip : Except Failure Unit) (p : Plan) :
    (∃ e, Transition.commit announce target slip p s = (.error e, s)) ∨
      ∃ c t, (s.records p.account).card? p.card = some c ∧
        (s.records p.account).isOpen c.board p.stage ∧
        s.Stored p.account ((s.records p.account).putCard (Storage.moved p c)) t ∧
        Transition.commit announce target slip p s =
          (.ok (Storage.moved p c),
            if announce then t.publish p.account c.board (Transition.event (Storage.moved p c))
            else t) := by
  unfold Transition.commit
  rw [Transition.store_eq]
  cases slip with
  | error e => exact .inl ⟨_, rfl⟩
  | ok u =>
    rcases Storage.place_cases h p with ⟨e, hp⟩ | ⟨c, t, hc, ho, hp, ht⟩
    · exact .inl ⟨_, by simp only [hp]; rfl⟩
    · exact .inr ⟨c, { s with storage := t }, hc, ho, .of_storage ht, by simp only [hp]; rfl⟩

/-! ## Deactivations -/

/-- A deactivation changes nothing, or it folds an active stage into another open stage of its
board and publishes that. -/
theorem deactivate_cases (h : s.storage.folder = none) (announce : Bool) (account id : String)
    (hf : (s.records account).Filed) :
    (∃ r, Deactivation.run announce account id s = (.ok r, s)) ∨
      ∃ stage fallback t d, stage ∈ Entries.values (s.records account).stages ∧
        stage.active = true ∧ ((s.records account).close stage).isOpen stage.board fallback ∧
        d.stage = stage ∧ d.fallback = some fallback ∧
        s.Stored account ((s.records account).fold stage fallback) t ∧
        Deactivation.run announce account id s =
          (.ok (.ok d), if announce then t.publish account stage.board d.event else t) := by
  unfold Deactivation.run
  cases hs : (s.records account).stage? id with
  | none =>
    refine .inl ⟨.error (⟨"Stage " ++ id ++ " not found", .notFound, []⟩, .null), ?_⟩
    simp only [bind_apply, get_apply, hs, pure_apply]
  | some stage =>
    obtain ⟨hmem, rfl⟩ := hf.stage_mem.1 hs
    cases ha : stage.active with
    | false =>
      refine .inl ⟨.ok { stage }, ?_⟩
      simp only [bind_apply, get_apply, hs, ha, Bool.not_false, if_true, pure_apply]
    | true =>
      cases hd : (s.records account).defaultStage? stage.board [stage.id] with
      | none =>
        refine .inl ⟨.error (⟨"Cannot deactivate the only active stage", .invalid, []⟩,
          stage.key), ?_⟩
        simp only [bind_apply, get_apply, hs, ha, Bool.not_true, Bool.false_eq_true, if_false, hd,
          pure_apply]
      | some fallback =>
        have hact : fallback ∈ (s.records account).activeStages stage.board :=
          List.mem_of_find?_eq_some hd
        have hne : fallback.id ≠ stage.id := by
          have := List.find?_some hd
          simpa using this
        obtain ⟨hfm, hfb, hfa⟩ := Records.mem_activeStages.1 hact
        -- the fallback is another stage, and so it stays open
        have hopen : ((s.records account).close stage).isOpen stage.board fallback.key :=
          Records.isOpen_iff.2 ⟨fallback,
            (Records.mem_stages_putStage hf).2 (.inr ⟨hfm, hne⟩), hfb, hfa, rfl⟩
        obtain ⟨u, hu, hus⟩ := Storage.setStageActive_memory h hs
        -- closing the stage restages no card yet
        have hcards : (u.records account).cardsIn stage.board stage.key =
            ((s.records account).close stage).cardsIn stage.board stage.key := by
          rw [hus.records]
          rfl
        obtain ⟨l, t, hl, ht⟩ := Storage.restageAll_memory hus.memory account stage.key
          fallback.key ((((s.records account).close stage).cardsIn stage.board stage.key).map (·.id))
        rw [hus.records] at ht
        have hrestage : Storage.restage account stage.board stage.key fallback.key u =
            (.ok l, t) := by
          unfold Storage.restage
          simp only [bind_apply, get_apply, hcards, hl]
        refine .inr ⟨stage, fallback.key, { s with storage := t },
          { stage, fallback := some fallback.key, migrated := l }, hmem, ha, hopen, rfl, rfl,
          .of_storage (hus.trans ht), ?_⟩
        simp only [bind_apply, get_apply, hs, ha, Bool.not_true, Bool.false_eq_true, if_false, hd,
          discard_apply, onStorage_apply, hu, hrestage]
        cases announce <;> rfl

end Server

end Kanban
