import Kanban.Proofs.Decimal.Order
import Kanban.Proofs.Server.Folding
import Kanban.Proofs.Server.Reading

/-!
# Kanban.Proofs.Server.Deactivating — what a deactivation does

A deactivation closes a stage and hands its cards to the first other active stage of the board. The
cards are selected once and then rewritten one by one, each by a write of its own that reads the
card again. As long as no write is refused, what is left is the records with the stage closed and
the stage of its cards changed, and with everything else in its place.

* `Records.Fallback` — the stage that takes the cards; `defaultStage?_fallback`.
* `Records.folded` — what is left; `fold_eq_folded`.
* `Storage.Takes`, `restageAll_takes` — a row of writes none of which is refused.
* `Carries` — what a deactivation that is carried out comes to.
* `deactivates` — deactivating any stage.
-/

namespace Kanban

namespace Stage

/-- Stages are ordered by position and, at equal positions, by id. -/
theorem leftOf_iff {s t : Stage} :
    s.leftOf t = true ↔ s.position < t.position ∨ (s.position = t.position ∧ s.id < t.id) := by
  unfold leftOf
  split
  · rename_i h
    simp [h]
  · rename_i h
    simp [h]

theorem orders_leftOf : Sorting.Orders leftOf fun _ => True where
  asymm := by
    intro s t _ _ h
    refine Bool.eq_false_iff.2 fun h' => ?_
    rcases leftOf_iff.1 h with hp | ⟨hp, hid⟩ <;> rcases leftOf_iff.1 h' with hp' | ⟨hp', hid'⟩
    · omega
    · omega
    · omega
    · exact lt_asymm hid hid'
  trans := by
    intro s t u _ _ _ hts hut
    rw [Bool.eq_false_iff, ne_eq, leftOf_iff, not_or, not_and] at hts hut ⊢
    obtain ⟨hp, hid⟩ := hts
    obtain ⟨hp', hid'⟩ := hut
    refine ⟨by omega, fun heq => ?_⟩
    -- equal at the ends, the positions are equal in between
    exact not_lt.2 ((not_lt.1 (hid (by omega))).trans (not_lt.1 (hid' (by omega))))

end Stage

namespace Records

variable {r : Records} {stage fallback : Stage}

/-! ## The fallback -/

/-- The stage that takes the cards of another one: the first other active stage of its board. -/
structure Fallback (r : Records) (stage fallback : Stage) : Prop where
  mem : fallback ∈ Entries.values r.stages
  board : fallback.board = stage.board
  active : fallback.active = true
  other : fallback.id ≠ stage.id
  first : ∀ s ∈ Entries.values r.stages, s.board = stage.board → s.active = true →
    s.id ≠ stage.id → s = fallback ∨ fallback.position < s.position ∨
      (fallback.position = s.position ∧ fallback.id < s.id)

/-- A stage is the only active one of its board. -/
def IsLast (stage : Stage) (r : Records) : Prop :=
  ∀ s ∈ Entries.values r.stages, s.board = stage.board → s.active = true → s.id = stage.id

/-- Stages with one id are one stage. -/
theorem Filed.eq_of_id (h : r.Filed) {s t : Stage} (hs : s ∈ Entries.values r.stages)
    (ht : t ∈ Entries.values r.stages) (hid : s.id = t.id) : s = t :=
  Option.some.inj ((h.stage_mem.2 ⟨hs, hid⟩).symm.trans (h.stage_mem.2 ⟨ht, rfl⟩))

/-- What is found for a stage is its fallback. -/
theorem defaultStage?_fallback (hf : r.Filed)
    (h : r.defaultStage? stage.board [stage.id] = some fallback) : r.Fallback stage fallback := by
  obtain ⟨hother, before, behind, hsplit, hbefore⟩ := List.find?_eq_some_iff_append.1 h
  obtain ⟨hmem, hboard, hactive⟩ := mem_activeStages.1 (List.mem_of_find?_eq_some h)
  refine ⟨hmem, hboard, hactive, by simpa using hother, fun s hs hsb hsa hsid => ?_⟩
  have hsmem : s ∈ before ++ fallback :: behind := hsplit ▸ mem_activeStages.2 ⟨hs, hsb, hsa⟩
  rcases List.mem_append.1 hsmem with hin | hin
  · -- all that comes before is passed over
    have hskip := hbefore s hin
    simp [hsid] at hskip
  · rcases List.mem_cons.1 hin with rfl | hin
    · exact .inl rfl
    · have hrise : Sorting.Rises Stage.leftOf (before ++ fallback :: behind) :=
        hsplit ▸ Sorting.rises_sort Stage.orders_leftOf fun _ _ => trivial
      have hnot := (List.pairwise_cons.1 (List.pairwise_append.1 hrise).2.1).1 s hin
      rw [Bool.eq_false_iff, ne_eq, Stage.leftOf_iff, not_or, not_and] at hnot
      obtain ⟨hpos, hid⟩ := hnot
      rcases Int.lt_or_eq_of_le (Int.not_lt.1 hpos) with hlt | heq
      · exact .inr (.inl hlt)
      · rcases (not_lt.1 (hid heq.symm)).lt_or_eq with hlt | hsame
        · exact .inr (.inr ⟨heq, hlt⟩)
        · exact .inl (hf.eq_of_id hs hmem hsame.symm)

/-- Nothing is found for a stage iff it is the last. -/
theorem defaultStage?_eq_none_iff :
    r.defaultStage? stage.board [stage.id] = none ↔ r.IsLast stage := by
  unfold defaultStage? IsLast
  simp [mem_activeStages]

/-! ## The records that are left -/

/-- A card of a stage as a card of the fallback. -/
def handedOver (stage : Stage) (fallback : Key) (c : Card) : Card :=
  if c.board = stage.board ∧ c.stage = stage.key then { c with stage := fallback } else c

/-- What is filed under an id when a stage is closed: that stage is, and no other. -/
def closing (stage : Stage) (id : String) (s : Stage) : Stage :=
  if id = stage.id then { s with active := false } else s

/-- The records with a stage closed and the stage of its cards changed, all in their places. -/
def folded (stage : Stage) (fallback : Key) (r : Records) : Records where
  cards := r.cards.map fun e => (e.1, handedOver stage fallback e.2)
  stages := r.stages.map fun e => (e.1, closing stage e.1 e.2)

theorem keys_cards_restage (hf : r.Filed) (source target : Key) (ids : List String) :
    Entries.keys (r.restage source target ids).cards = Entries.keys r.cards := by
  unfold restage
  induction ids generalizing r with
  | nil => rfl
  | cons id ids ih =>
    refine (ih (filed_restageOne hf source target id)).trans ?_
    unfold restageOne
    cases hc : r.card? id with
    | none => rfl
    | some c =>
      dsimp only
      split
      · -- the card is put where it is
        have hid := (hf.card_mem.1 hc).2
        exact Entries.keys_put_of_mem (hid ▸ Entries.mem_keys_of_get? hc) _
      · rfl

/-- Folding a stage one card after the other closes it and hands over its cards, and that is all. -/
theorem fold_eq_folded (hf : r.Filed) (hs : r.stage? stage.id = some stage) (fallback : Key) :
    r.fold stage fallback = r.folded stage fallback := by
  have hcards : (r.fold stage fallback).cards = (r.folded stage fallback).cards := by
    have hkeys : Entries.keys (r.folded stage fallback).cards = Entries.keys r.cards :=
      Entries.keys_map (fun _ => handedOver stage fallback) _
    refine Entries.eq_of_keys (hkeys ▸ hf.cards) ?_ fun id _ => ?_
    · exact (keys_cards_restage (filed_putStage hf _) _ _ _).trans hkeys.symm
    · have hget : Entries.get? id (r.folded stage fallback).cards =
          (r.card? id).map (handedOver stage fallback) :=
        Entries.get?_map (fun _ => handedOver stage fallback) _ _
      refine (card?_fold hf stage fallback id).trans (hget.trans ?_).symm
      congr 1
      funext c
      unfold handedOver restaged
      by_cases hb : c.board = stage.board <;> simp [hb]
  have hstages : (r.fold stage fallback).stages = (r.folded stage fallback).stages := by
    have hkeys : Entries.keys (r.folded stage fallback).stages = Entries.keys r.stages :=
      Entries.keys_map (closing stage) _
    rw [stages_fold]
    refine Entries.eq_of_keys (hkeys ▸ hf.stages) ?_ fun id _ => ?_
    · exact (Entries.keys_put_of_mem (Entries.mem_keys_of_get? hs) _).trans hkeys.symm
    · have hget : Entries.get? id (r.folded stage fallback).stages =
          (r.stage? id).map (closing stage id) := Entries.get?_map (closing stage) _ _
      rw [hget]
      by_cases hid : id = stage.id
      · subst hid
        rw [hs, Option.map_some, closing, if_pos rfl]
        exact Entries.get?_put_self _ _ _
      · have hsame : closing stage id = fun s => s := by
          funext s
          exact if_neg hid
        rw [hsame, Option.map_id']
        exact Entries.get?_put_of_ne hid _ _
  exact Records.mk.injEq .. ▸ ⟨hcards, hstages⟩

end Records

namespace Storage

open Operation

variable {account : String} {s : Storage}

/-! ## Writes that are not refused -/

/-- A row of changes is stored, one after the other. -/
def Takes (account : String) : List Change → Storage → Prop
  | [], _ => True
  | c :: cs, s => ∃ t, persist account c s = (.ok (), t) ∧ Takes account cs t

/-- A card as it is stored when it is handed over. -/
def restaging (target : Key) (c : Card) : Change := { cards := [{ c with stage := target }] }

/-- Cards of a stage are all restaged if no write is refused: writing one card leaves the others as
they were selected. -/
theorem restageAll_takes {source target : Key} {cs : List Card} (hids : (cs.map (·.id)).Nodup)
    (hcs : ∀ c ∈ cs, (s.records account).card? c.id = some c ∧ c.stage = source)
    (h : Takes account (cs.map (restaging target)) s) :
    ∃ t, restageAll account source target (cs.map (·.id)) s = (.ok (cs.map (·.id)), t) := by
  induction cs generalizing s with
  | nil => exact ⟨s, rfl⟩
  | cons c cs ih =>
    obtain ⟨hnew, hids⟩ := List.nodup_cons.1 hids
    obtain ⟨hc, hstage⟩ := hcs c List.mem_cons_self
    obtain ⟨t, hp, ht⟩ := h
    have hrecords : t.records account = (s.records account).putCard { c with stage := target } := by
      rw [(written_persist hp).records_self, restaging, Records.apply_card]
    have hrest : ∀ d ∈ cs, (t.records account).card? d.id = some d ∧ d.stage = source := by
      intro d hd
      obtain ⟨hget, hds⟩ := hcs d (List.mem_cons_of_mem _ hd)
      have hne : d.id ≠ c.id := fun heq => hnew (List.mem_map.2 ⟨d, hd, heq⟩)
      rw [hrecords, Records.card?_putCard, if_neg hne]
      exact ⟨hget, hds⟩
    obtain ⟨u, hu⟩ := ih hids hrest ht
    refine ⟨u, ?_⟩
    rw [restaging] at hp
    rw [List.map_cons, restageAll, bind_apply, get_apply]
    simp only [hc, if_apply, hstage, ne_eq, not_true, if_false, bind_apply, hp, hu, pure_apply]

/-- All the cards that were selected are restaged, in memory and in the folder. -/
theorem became_restageAll {source target : Key} {ids : List String} {t : Storage}
    (h : restageAll account source target ids s = (.ok ids, t)) :
    Became account ((s.records account).restage source target ids) s t := by
  rcases restageAll_outcome account source target ids s with ⟨l, u, hu, hb⟩ | ⟨e, u, done, i, rest, hu, -⟩
  · rw [h] at hu
    cases hu
    exact hb
  · rw [h] at hu
    cases hu

/-- A stage is closed if the write is not refused. -/
theorem setStageActive_takes {stage : Stage} {t : Storage}
    (hs : (s.records account).stage? stage.id = some stage)
    (hp : persist account { stages := [{ stage with active := false }] } s = (.ok (), t)) :
    setStageActive account stage.id false s = (.ok { stage with active := false }, t) ∧
      s.Written account ((s.records account).close stage) t := by
  constructor
  · unfold setStageActive Storage.stage
    simp only [bind_apply, get_apply, hs, pure_apply, hp]
  · have hw := written_persist hp
    rw [Records.apply_stage] at hw
    exact hw

end Storage

namespace Deactivation

open Operation Storage

variable {announce : Bool} {account id : String} {s : Server} {stage fallback : Stage}

/-- The writes of a deactivation: the stage is closed, and then its cards are handed over. -/
def writes (stage : Stage) (fallback : Key) (r : Records) : List Change :=
  { stages := [{ stage with active := false }] } ::
    (r.cardsIn stage.board stage.key).map (restaging fallback)

/-- The server with the news of a deactivation published, if it is announced. -/
def told (announce : Bool) (account : String) (stage : Stage) (fallback : Key) (s : Server) :
    Server :=
  if announce then
    s.publish account stage.board (.object [("event", "stage_deactivated"),
      ("stage_key", stage.key), ("fallback_stage_key", fallback)])
  else s

/-- A deactivation that is carried out: it stores `t`, hands over the cards `migrated`, and one event
tells of it; the second time there is nothing to do. -/
structure Carries (announce : Bool) (account id : String) (s : Server) (stage fallback : Stage)
    (t : Storage) (migrated : List Card) : Prop where
  outcome : run announce account id s =
    (.ok (.ok { stage, fallback := some fallback.key, migrated := migrated.map (·.id) }),
      told announce account stage fallback.key { s with storage := t })
  /-- The records of the account, in memory and in the folder; all else in storage is as it was. -/
  written : s.storage.Written account ((s.records account).folded stage fallback.key) t
  /-- The cards of the stage, each of them once. -/
  all : migrated.Perm ((Entries.values (s.records account).cards).filter fun c =>
    c.board = stage.board && c.stage = stage.key)
  /-- They are in order of their positions; at equal positions, in the order in which they are
  stored. -/
  order : migrated.Pairwise fun c d => c.position < d.position ∨
    (c.position == d.position) = true ∧ [c, d].Sublist (Entries.values (s.records account).cards)
  again : run announce account id
      (told announce account stage fallback.key { s with storage := t }) =
    (.ok (.ok { stage := { stage with active := false } }),
      told announce account stage fallback.key { s with storage := t })

/-- The cards of a stage, by position and then as they are stored. -/
theorem order_cardsIn {r : Records} (hf : r.Filed)
    (hpos : ∀ c ∈ Entries.values r.cards, c.position.isNaN = false) (board key : Key) :
    (r.cardsIn board key).Pairwise fun c d => c.position < d.position ∨
      (c.position == d.position) = true ∧ [c, d].Sublist (Entries.values r.cards) := by
  unfold Records.cardsIn Card.byPosition
  have hdefined : ∀ c ∈ (Entries.values r.cards).filter fun c => c.board = board && c.stage = key,
      c.position.isNaN = false := fun c hc => hpos c (List.mem_of_mem_filter hc)
  have hnodup : ((Entries.values r.cards).filter fun c => c.board = board && c.stage = key).Nodup :=
    (List.Nodup.of_map _ hf.nodup_cards).filter _
  have horders : Sorting.Orders (fun c d : Card => below c.position d.position)
      fun c => c.position.isNaN = false :=
    ⟨fun hx hy => Decimal.orders_below.asymm hx hy,
      fun hx hy hz => Decimal.orders_below.trans hx hy hz⟩
  refine (Sorting.pairwise_sort horders hdefined hnodup).imp_of_mem
    fun {c d} hc hd ⟨hdc, htie⟩ => ?_
  have hcp := hdefined c ((Sorting.sort_perm _ _).mem_iff.1 hc)
  have hdp := hdefined d ((Sorting.sort_perm _ _).mem_iff.1 hd)
  cases hcd : below c.position d.position with
  | true => exact .inl (of_decide_eq_true hcd)
  | false =>
    -- neither is below the other
    have heq : (c.position == d.position) = true :=
      Decimal.beq_of_le_of_le ((Decimal.below_eq_false_iff hdp hcp).1 hdc)
        ((Decimal.below_eq_false_iff hcp hdp).1 hcd)
    exact .inr ⟨heq, (htie hcd).trans List.filter_sublist⟩

/-- A stage that has a fallback is deactivated, if no write is refused. -/
theorem carries (hf : (s.records account).Filed)
    (hpos : ∀ c ∈ Entries.values (s.records account).cards, c.position.isNaN = false)
    (hs : (s.records account).stage? id = some stage) (ha : stage.active = true)
    (hd : (s.records account).defaultStage? stage.board [stage.id] = some fallback)
    (hw : Takes account (writes stage fallback.key (s.records account)) s.storage) :
    ∃ t migrated, Carries announce account id s stage fallback t migrated := by
  obtain ⟨-, rfl⟩ := hf.stage_mem.1 hs
  obtain ⟨u, hp, hrow⟩ := hw
  -- the stage is stored as closed
  obtain ⟨hclose, hu⟩ := setStageActive_takes hs hp
  -- then its cards are handed over, all of them
  have hcards : (u.records account).cardsIn stage.board stage.key =
      (s.records account).cardsIn stage.board stage.key := by
    rw [hu.records_self]
    rfl
  have hids : (((s.records account).cardsIn stage.board stage.key).map (·.id)).Nodup := by
    unfold Records.cardsIn Card.byPosition
    rw [((Sorting.sort_perm _ _).map _).nodup_iff]
    exact hf.nodup_cards.sublist (List.filter_sublist.map _)
  have hfound : ∀ c ∈ (s.records account).cardsIn stage.board stage.key,
      (u.records account).card? c.id = some c ∧ c.stage = stage.key := by
    intro c hc
    obtain ⟨hmem, -, hstage⟩ := Records.cardsIn_mem.1 hc
    rw [hu.records_self]
    exact ⟨hf.card_mem.2 ⟨hmem, rfl⟩, hstage⟩
  obtain ⟨t, ht⟩ := restageAll_takes hids hfound hrow
  have hwritten : s.storage.Written account ((s.records account).fold stage fallback.key) t := by
    have hb := became_restageAll ht
    rw [hu.records_self] at hb
    exact hu.became hb
  have hfolds : Folds account stage.id s stage fallback.key :=
    ⟨hs, rfl, ha, Records.isOpen_fallback hf hd⟩
  refine ⟨t, (s.records account).cardsIn stage.board stage.key, ?_, ?_, ?_,
    order_cardsIn hf hpos _ _, ?_⟩
  · have hrestage : Storage.restage account stage.board stage.key fallback.key u =
        (.ok (((s.records account).cardsIn stage.board stage.key).map (·.id)), t) := by
      unfold Storage.restage
      simp only [bind_apply, get_apply, hcards, ht]
    unfold Deactivation.run told
    simp only [bind_apply, get_apply, hs, ha, Bool.not_true, Bool.false_eq_true, if_false, hd,
      discard_apply, Server.onStorage_apply, hclose, hrestage]
    cases announce <;> rfl
  · rw [← Records.fold_eq_folded hf hs]
    exact hwritten
  · exact Sorting.sort_perm _ _
  · refine @again_of_cut announce account _ s stage fallback.key ((s.records account).carried stage) _
      hfolds ?_
    cases announce <;> exact hwritten

/-- Deactivating a stage, of any account in order without undefined positions. An active stage that
is not the last of its board is closed and its cards go to the fallback, provided that none of the
writes is refused; for the last one, and for one that is not there, nothing happens. -/
theorem deactivates (announce : Bool) (hf : (s.records account).Filed)
    (hpos : ∀ c ∈ Entries.values (s.records account).cards, c.position.isNaN = false)
    (hw : ∀ stage fallback, (s.records account).stage? id = some stage →
      (s.records account).Fallback stage fallback →
      Takes account (writes stage fallback.key (s.records account)) s.storage) :
    (∀ stage, (s.records account).stage? id = some stage → stage.active = true →
      ¬ (s.records account).IsLast stage →
      ∃ fallback t migrated, (s.records account).Fallback stage fallback ∧
        Carries announce account id s stage fallback t migrated) ∧
    (∀ stage, (s.records account).stage? id = some stage → stage.active = true →
      (s.records account).IsLast stage →
      ∃ e key, e.code = .invalid ∧ run announce account id s = (.ok (.error (e, key)), s)) ∧
    ((s.records account).stage? id = none →
      ∃ e key, e.code = .notFound ∧ run announce account id s = (.ok (.error (e, key)), s)) := by
  refine ⟨fun stage hs ha hlast => ?_, fun stage hs ha hlast => ?_, fun hs => ?_⟩
  · obtain ⟨fallback, hd⟩ := Option.ne_none_iff_exists'.1
      (mt Records.defaultStage?_eq_none_iff.1 hlast)
    have hfallback := Records.defaultStage?_fallback hf hd
    obtain ⟨t, migrated, h⟩ := carries hf hpos hs ha hd (hw stage fallback hs hfallback)
    exact ⟨fallback, t, migrated, hfallback, h⟩
  · have hd := Records.defaultStage?_eq_none_iff.2 hlast
    refine ⟨⟨"Cannot deactivate the only active stage", .invalid, []⟩, stage.key, rfl, ?_⟩
    unfold Deactivation.run
    simp only [bind_apply, get_apply, hs, ha, Bool.not_true, Bool.false_eq_true, if_false, hd,
      pure_apply]
  · refine ⟨⟨"Stage " ++ id ++ " not found", .notFound, []⟩, .null, rfl, ?_⟩
    unfold Deactivation.run
    simp only [bind_apply, get_apply, hs, pure_apply]

/-- The server of `jammed` with a folder that refuses nothing. -/
def filing : Server := { jammed with storage := { jammed.storage with folder := some {} } }

/-- The stage that is left when the first one is closed. -/
def filingStage : Stage := { id := "2", board := "sales", key := "won", name := "Won", position := 1 }

theorem filed_filing : (filing.records "acme").Filed := filed_jammed

/-- Both writes are stored: the closed stage, and the card in the other stage. -/
theorem takes_filing :
    Takes "acme" (writes jammedStage "won" (filing.records "acme")) filing.storage := by
  have hcards : (filing.records "acme").cardsIn jammedStage.board jammedStage.key =
      [⟨"1", "sales", "new", 1.0, 0, []⟩] := by decide +kernel
  rw [writes, hcards]
  have hrefuses : Folder.refuses (Snapshot.fileName "acme") {} = false := by
    simp [Folder.refuses, Folder.get?]
  refine ⟨_, persist_written rfl hrefuses (by decide +kernel), _,
    persist_written rfl ?_ (by decide +kernel), trivial⟩
  simp [Folder.write, Folder.refuses, Folder.get?]

theorem deactivates_filing :
    (filing.records "acme").Filed ∧
      (filing.records "acme").stage? "1" = some jammedStage ∧
      ¬ (filing.records "acme").IsLast jammedStage ∧
      ∃ fallback t migrated, (filing.records "acme").Fallback jammedStage fallback ∧
        Carries true "acme" "1" filing jammedStage fallback t migrated := by
  have hs : (filing.records "acme").stage? "1" = some jammedStage := rfl
  have hpos : ∀ c ∈ Entries.values (filing.records "acme").cards, c.position.isNaN = false := by
    decide +kernel
  have hlast : ¬ (filing.records "acme").IsLast jammedStage := by
    intro h
    have hid := h filingStage (by decide) rfl rfl
    exact absurd hid (by decide)
  have hw : ∀ stage fallback, (filing.records "acme").stage? "1" = some stage →
      (filing.records "acme").Fallback stage fallback →
      Takes "acme" (writes stage fallback.key (filing.records "acme")) filing.storage := by
    intro stage fallback hstage hfallback
    obtain rfl := Option.some.inj (hs.symm.trans hstage)
    -- the fallback is the other of the two stages
    have hmem : fallback ∈ [jammedStage, filingStage] := hfallback.mem
    rcases List.mem_cons.1 hmem with rfl | hmem
    · exact absurd rfl hfallback.other
    · obtain rfl := List.mem_singleton.1 hmem
      exact takes_filing
  exact ⟨filed_filing, hs, hlast, (deactivates true filed_filing hpos hw).1 jammedStage hs rfl hlast⟩

end Deactivation

end Kanban
