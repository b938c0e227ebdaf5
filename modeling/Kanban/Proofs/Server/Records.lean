import Kanban.Proofs.Projection.Hearing
import Kanban.Repository

/-!
# Kanban.Proofs.Server.Records — the cards and stages of one board

What the records of an account say about one of its boards: which stages are open, and where the
cards in open stages are. Storing a card moves that card alone; folding a stage closes it and
carries its cards.

* `Filed`, `Named` — records in order.
* `shown?` — the place of a card, if it is in an open stage of the board.
* `shown?_putCard`, `shown?_fold` — what storing a card and folding a stage do to places.
-/

namespace Kanban

open Projection (Spot)

namespace Records

variable {r : Records} {board : Key}

/-- Records filed under their ids, each id once. -/
structure Filed (r : Records) : Prop where
  cards : (Entries.keys r.cards).Nodup
  cardIds : ∀ e ∈ r.cards, e.2.id = e.1
  stages : (Entries.keys r.stages).Nodup
  stageIds : ∀ e ∈ r.stages, e.2.id = e.1

/-- No two stages of a board have one key. -/
def Distinct (board : Key) (r : Records) : Prop :=
  ∀ s ∈ Entries.values r.stages, ∀ t ∈ Entries.values r.stages,
    s.board = board → t.board = board → s.key = t.key → s = t

instance (board : Key) (r : Records) : Decidable (r.Distinct board) :=
  inferInstanceAs (Decidable (∀ s ∈ Entries.values r.stages, ∀ t ∈ Entries.values r.stages,
    s.board = board → t.board = board → s.key = t.key → s = t))

/-- The stages of a board have keys that are text, each key once. -/
structure Named (board : Key) (r : Records) : Prop where
  text : ∀ s ∈ Entries.values r.stages, s.board = board → ∃ k, s.key = .text k
  distinct : r.Distinct board

/-- Whether a key is that of an active stage of the board. -/
def isOpen (board key : Key) (r : Records) : Bool := (r.activeStage? board key).isSome

/-- The place of a card, if it is in an open stage of the board. -/
def shown? (board : Key) (id : String) (r : Records) : Option Spot :=
  (r.card? id).bind fun c =>
    if c.board = board ∧ r.isOpen board c.stage then some (Spot.ofCard c) else none

/-- Every card of the board is in an open stage. -/
def Housed (board : Key) (r : Records) : Prop :=
  ∀ c ∈ Entries.values r.cards, c.board = board → r.isOpen board c.stage

theorem mem_activeStages {s : Stage} :
    s ∈ r.activeStages board ↔
      s ∈ Entries.values r.stages ∧ s.board = board ∧ s.active = true := by
  unfold activeStages
  rw [(Stage.byPosition_perm _).mem_iff]
  simp

theorem isOpen_iff {key : Key} :
    r.isOpen board key ↔
      ∃ s ∈ Entries.values r.stages, s.board = board ∧ s.active = true ∧ s.key = key := by
  unfold isOpen activeStage?
  rw [List.find?_isSome]
  simp only [mem_activeStages, decide_eq_true_eq, and_assoc]

theorem Filed.card_mem (h : r.Filed) {id : String} {c : Card} :
    r.card? id = some c ↔ c ∈ Entries.values r.cards ∧ c.id = id := by
  rw [Entries.mem_values_iff h.cards]
  constructor
  · intro hc
    exact ⟨⟨id, hc⟩, h.cardIds _ (Entries.mem_of_get? hc)⟩
  · rintro ⟨⟨k, hk⟩, hid⟩
    -- a card is filed under its id
    have hkey := h.cardIds _ (Entries.mem_of_get? hk)
    dsimp only at hkey
    rw [← hid, hkey]
    exact hk

theorem Filed.stage_mem (h : r.Filed) {id : String} {s : Stage} :
    r.stage? id = some s ↔ s ∈ Entries.values r.stages ∧ s.id = id := by
  rw [Entries.mem_values_iff h.stages]
  constructor
  · intro hs
    exact ⟨⟨id, hs⟩, h.stageIds _ (Entries.mem_of_get? hs)⟩
  · rintro ⟨⟨k, hk⟩, hid⟩
    have hkey := h.stageIds _ (Entries.mem_of_get? hk)
    dsimp only at hkey
    rw [← hid, hkey]
    exact hk

theorem shown?_eq_some_iff {id : String} {z : Spot} :
    r.shown? board id = some z ↔
      ∃ c, r.card? id = some c ∧ c.board = board ∧ r.isOpen board c.stage ∧ Spot.ofCard c = z := by
  unfold shown?
  cases r.card? id with
  | none => simp
  | some c =>
    by_cases hc : c.board = board ∧ r.isOpen board c.stage
    · simp [hc]
    · rw [Option.bind_some, if_neg hc]
      constructor
      · simp
      · rintro ⟨c', hc', hb, ho, -⟩
        obtain rfl := Option.some.inj hc'
        exact absurd ⟨hb, ho⟩ hc

/-- Where all cards are in open stages, every card of the board is shown. -/
theorem Housed.shown? (h : r.Housed board) {id : String} {c : Card} (hc : r.card? id = some c)
    (hb : c.board = board) : r.shown? board id = some (Spot.ofCard c) :=
  shown?_eq_some_iff.2 ⟨c, hc, hb, h c (Entries.mem_values_of_get? hc) hb, rfl⟩

/-- A shown card is in an open stage. -/
theorem isOpen_of_shown? {id : String} {z : Spot} (h : r.shown? board id = some z) :
    r.isOpen board z.1 := by
  obtain ⟨c, -, -, ho, rfl⟩ := shown?_eq_some_iff.1 h
  exact ho

/-! ## Storing a card -/

/-- The records with a card stored. -/
def putCard (c : Card) (r : Records) : Records := { r with cards := Entries.put c.id c r.cards }

/-- The records with a stage stored. -/
def putStage (s : Stage) (r : Records) : Records := { r with stages := Entries.put s.id s r.stages }

theorem apply_card (c : Card) (r : Records) : r.apply { cards := [c] } = r.putCard c := by
  simp [apply, putCard]

theorem apply_stage (s : Stage) (r : Records) : r.apply { stages := [s] } = r.putStage s := by
  simp [apply, putStage]

theorem filed_putCard (h : r.Filed) (c : Card) : (r.putCard c).Filed where
  cards := Entries.nodup_put h.cards _ _
  cardIds := by
    intro e he
    rcases (Entries.mem_put h.cards).1 he with rfl | ⟨he, -⟩
    · rfl
    · exact h.cardIds e he
  stages := h.stages
  stageIds := h.stageIds

theorem filed_putStage (h : r.Filed) (s : Stage) : (r.putStage s).Filed where
  cards := h.cards
  cardIds := h.cardIds
  stages := Entries.nodup_put h.stages _ _
  stageIds := by
    intro e he
    rcases (Entries.mem_put h.stages).1 he with rfl | ⟨he, -⟩
    · rfl
    · exact h.stageIds e he

@[simp] theorem isOpen_putCard (c : Card) (key : Key) (r : Records) :
    (r.putCard c).isOpen board key = r.isOpen board key := rfl

theorem card?_putCard (c : Card) (id : String) (r : Records) :
    (r.putCard c).card? id = if id = c.id then some c else r.card? id := by
  unfold card? putCard
  by_cases h : id = c.id
  · simp [h]
  · simp [h, Entries.get?_put_of_ne h]

theorem mem_cards_putCard (h : r.Filed) {c d : Card} :
    d ∈ Entries.values (r.putCard c).cards ↔
      d = c ∨ (d ∈ Entries.values r.cards ∧ d.id ≠ c.id) := by
  -- being stored is being found under the id
  have hd : (r.putCard c).card? d.id = some d ↔
      d ∈ Entries.values (r.putCard c).cards ∧ d.id = d.id := (filed_putCard h c).card_mem
  rw [and_iff_left rfl] at hd
  rw [← hd, card?_putCard]
  by_cases hid : d.id = c.id
  · simp [hid, eq_comm]
  · have hne : d ≠ c := fun heq => hid (heq ▸ rfl)
    rw [if_neg hid, h.card_mem]
    simp [hid, hne]

/-- Storing a card of the board in an open stage puts it there and moves no other card. -/
theorem shown?_putCard {c : Card} (hb : c.board = board) (ho : r.isOpen board c.stage)
    (id : String) :
    (r.putCard c).shown? board id = if id = c.id then some (Spot.ofCard c) else r.shown? board id := by
  unfold shown?
  rw [card?_putCard]
  by_cases h : id = c.id
  · simp [h, hb, ho]
  · rw [if_neg h, if_neg h]
    rfl

/-- Storing a card of another board moves no card of the board. -/
theorem shown?_putCard_of_ne {c c₀ : Card} (hc : r.card? c.id = some c₀)
    (h₀ : c₀.board ≠ board) (hb : c.board ≠ board) (id : String) :
    (r.putCard c).shown? board id = r.shown? board id := by
  unfold shown?
  rw [card?_putCard]
  by_cases h : id = c.id
  · subst h
    simp [hb, hc, h₀]
  · rw [if_neg h]
    rfl

theorem housed_putCard (h : r.Housed board) (hf : r.Filed) {c : Card}
    (ho : c.board = board → r.isOpen board c.stage) : (r.putCard c).Housed board := by
  intro d hd hb
  rcases (mem_cards_putCard hf).1 hd with rfl | ⟨hd, -⟩
  · exact ho hb
  · exact h d hd hb

/-! ## Closing a stage -/

theorem mem_stages_putStage (h : r.Filed) {s t : Stage} :
    t ∈ Entries.values (r.putStage s).stages ↔
      t = s ∨ (t ∈ Entries.values r.stages ∧ t.id ≠ s.id) := by
  have ht : (r.putStage s).stage? t.id = some t ↔
      t ∈ Entries.values (r.putStage s).stages ∧ t.id = t.id := (filed_putStage h s).stage_mem
  rw [and_iff_left rfl] at ht
  have hget : (r.putStage s).stage? t.id = if t.id = s.id then some s else r.stage? t.id := by
    unfold stage? putStage
    by_cases hid : t.id = s.id
    · simp [hid]
    · simp [hid, Entries.get?_put_of_ne hid]
  rw [← ht, hget]
  by_cases hid : t.id = s.id
  · simp [hid, eq_comm]
  · have hne : t ≠ s := fun heq => hid (heq ▸ rfl)
    rw [if_neg hid, h.stage_mem]
    simp [hid, hne]

/-- The records with a stage closed. -/
def close (s : Stage) (r : Records) : Records := r.putStage { s with active := false }

theorem distinct_close (h : r.Filed) (hn : r.Distinct board) {s : Stage}
    (hs : s ∈ Entries.values r.stages) : (r.close s).Distinct board := by
  -- another stage of the board cannot have the key of the closed one
  have hid {t : Stage} (ht : t ∈ Entries.values r.stages) (hb : t.board = s.board)
      (hk : t.key = s.key) (hbs : s.board = board) : t.id = s.id :=
    congrArg Stage.id (hn t ht s hs (hb.trans hbs) hbs hk)
  intro t ht u hu htb hub hk
  rcases (mem_stages_putStage h).1 ht with rfl | ⟨ht, htid⟩
  · rcases (mem_stages_putStage h).1 hu with rfl | ⟨hu, huid⟩
    · rfl
    · exact absurd (hid hu (hub.trans htb.symm) hk.symm htb) huid
  · rcases (mem_stages_putStage h).1 hu with rfl | ⟨hu, huid⟩
    · exact absurd (hid ht (htb.trans hub.symm) hk hub) htid
    · exact hn t ht u hu htb hub hk

theorem named_close (h : r.Filed) (hn : r.Named board) {s : Stage}
    (hs : s ∈ Entries.values r.stages) : (r.close s).Named board where
  text := by
    intro t ht hb
    rcases (mem_stages_putStage h).1 ht with rfl | ⟨ht, -⟩
    · exact hn.text s hs hb
    · exact hn.text t ht hb
  distinct := distinct_close h hn.distinct hs

/-- Closing a stage of the board closes its key and no other. -/
theorem isOpen_close (h : r.Filed) (hn : r.Distinct board) {s : Stage}
    (hs : s ∈ Entries.values r.stages) (hb : s.board = board) (key : Key) :
    (r.close s).isOpen board key ↔ r.isOpen board key ∧ key ≠ s.key := by
  rw [isOpen_iff, isOpen_iff]
  constructor
  · rintro ⟨t, ht, htb, hta, rfl⟩
    rcases (mem_stages_putStage h).1 ht with rfl | ⟨ht, hid⟩
    · simp at hta
    · refine ⟨⟨t, ht, htb, hta, rfl⟩, fun hk => ?_⟩
      have heq := congrArg Stage.id (hn t ht s hs htb hb hk)
      exact hid heq
  · rintro ⟨⟨t, ht, htb, hta, rfl⟩, hk⟩
    refine ⟨t, (mem_stages_putStage h).2 (.inr ⟨ht, fun hid => hk ?_⟩), htb, hta, rfl⟩
    -- no two stages have one id
    have heq : t = s := by
      have h1 := h.stage_mem.2 ⟨ht, hid⟩
      have h2 := h.stage_mem.2 ⟨hs, rfl⟩
      exact Option.some.inj (h1.symm.trans h2)
    rw [heq]

/-- Closing a stage of another board closes no key of the board. -/
theorem isOpen_close_of_ne (h : r.Filed) {s : Stage} (hs : s ∈ Entries.values r.stages)
    (hb : s.board ≠ board) (key : Key) : (r.close s).isOpen board key = r.isOpen board key := by
  rw [Bool.eq_iff_iff, isOpen_iff, isOpen_iff]
  constructor
  · rintro ⟨t, ht, htb, hta, hk⟩
    rcases (mem_stages_putStage h).1 ht with rfl | ⟨ht, -⟩
    · exact absurd htb hb
    · exact ⟨t, ht, htb, hta, hk⟩
  · rintro ⟨t, ht, htb, hta, hk⟩
    refine ⟨t, (mem_stages_putStage h).2 (.inr ⟨ht, fun hid => hb ?_⟩), htb, hta, hk⟩
    have h1 := h.stage_mem.2 ⟨ht, hid⟩
    have h2 := h.stage_mem.2 ⟨hs, rfl⟩
    rw [← Option.some.inj (h1.symm.trans h2)]
    exact htb

/-! ## Restaging cards -/

/-- A card of a stage as a card of another. -/
def restaged (source target : Key) (c : Card) : Card :=
  if c.stage = source then { c with stage := target } else c

@[simp] theorem board_restaged (source target : Key) (c : Card) :
    (restaged source target c).board = c.board := by
  unfold restaged
  split <;> rfl

theorem restaged_restaged (source target : Key) (c : Card) :
    restaged source target (restaged source target c) = restaged source target c := by
  by_cases hc : c.stage = source
  · by_cases ht : target = source <;> simp [restaged, hc, ht]
  · simp [restaged, hc]

/-- The records after a card was restaged. -/
def restageOne (source target : Key) (id : String) (r : Records) : Records :=
  match r.card? id with
  | none => r
  | some c => if c.stage = source then r.putCard { c with stage := target } else r

/-- The records after the cards with some ids were restaged. -/
def restage (source target : Key) (ids : List String) (r : Records) : Records :=
  ids.foldl (fun r id => r.restageOne source target id) r

theorem filed_restageOne (h : r.Filed) (source target : Key) (id : String) :
    (r.restageOne source target id).Filed := by
  unfold restageOne
  split
  · exact h
  · split
    · exact filed_putCard h _
    · exact h

theorem card?_restageOne (h : r.Filed) (source target : Key) (id id' : String) :
    (r.restageOne source target id).card? id' =
      if id' = id then (r.card? id').map (restaged source target) else r.card? id' := by
  unfold restageOne
  cases hc : r.card? id with
  | none =>
    by_cases hid : id' = id
    · simp [hid, hc]
    · simp [hid]
  | some c =>
    have hcid := (h.card_mem.1 hc).2
    by_cases hs : c.stage = source
    · simp only [hs, if_true, card?_putCard, hcid]
      by_cases hid : id' = id
      · simp [hid, hc, restaged, hs, hcid]
      · simp [hid]
    · by_cases hid : id' = id
      · simp [hs, hid, hc, restaged]
      · simp [hs, hid]

@[simp] theorem stages_restageOne (source target : Key) (id : String) (r : Records) :
    (r.restageOne source target id).stages = r.stages := by
  unfold restageOne
  split
  · rfl
  · split <;> rfl

@[simp] theorem stages_restage (source target : Key) (ids : List String) (r : Records) :
    (r.restage source target ids).stages = r.stages := by
  unfold restage
  induction ids generalizing r with
  | nil => rfl
  | cons id ids ih => exact (ih _).trans (stages_restageOne source target id r)

theorem filed_restage (h : r.Filed) (source target : Key) (ids : List String) :
    (r.restage source target ids).Filed := by
  unfold restage
  induction ids generalizing r with
  | nil => exact h
  | cons id ids ih => exact ih (filed_restageOne h source target id)

theorem card?_restage (h : r.Filed) (source target : Key) (ids : List String) (id : String) :
    (r.restage source target ids).card? id =
      if id ∈ ids then (r.card? id).map (restaged source target) else r.card? id := by
  unfold restage
  induction ids generalizing r with
  | nil => simp
  | cons id' ids ih =>
    rw [List.foldl_cons, ih (filed_restageOne h source target id'), card?_restageOne h]
    by_cases hid : id = id'
    · -- listed once or more often: the second time nothing changes
      subst hid
      by_cases hmem : id ∈ ids
      · simp only [hmem, if_true, List.mem_cons, true_or, Option.map_map]
        congr 1
        funext c
        exact restaged_restaged source target c
      · simp [hmem]
    · simp [hid]

/-! ## Folding a stage -/

/-- The records with a stage closed and its cards in another stage of its board. -/
def fold (s : Stage) (fallback : Key) (r : Records) : Records :=
  (r.close s).restage s.key fallback (((r.close s).cardsIn s.board s.key).map (·.id))

theorem filed_fold (h : r.Filed) (s : Stage) (fallback : Key) : (r.fold s fallback).Filed :=
  filed_restage (filed_putStage h _) _ _ _

theorem stages_fold (s : Stage) (fallback : Key) (r : Records) :
    (r.fold s fallback).stages = (r.close s).stages := stages_restage _ _ _ _

theorem distinct_fold (h : r.Filed) (hn : r.Distinct board) {s : Stage}
    (hs : s ∈ Entries.values r.stages) (fallback : Key) : (r.fold s fallback).Distinct board := by
  unfold Distinct
  rw [stages_fold]
  exact distinct_close h hn hs

theorem named_fold (h : r.Filed) (hn : r.Named board) {s : Stage}
    (hs : s ∈ Entries.values r.stages) (fallback : Key) : (r.fold s fallback).Named board := by
  refine ⟨?_, distinct_fold h hn.distinct hs fallback⟩
  rw [stages_fold]
  exact (named_close h hn hs).text

theorem isOpen_fold (s : Stage) (fallback key : Key) (r : Records) :
    (r.fold s fallback).isOpen board key = (r.close s).isOpen board key := by
  unfold isOpen activeStage? activeStages
  rw [stages_fold]

/-- Folding a stage restages the cards of the stage that are on its board. -/
theorem card?_fold (h : r.Filed) (s : Stage) (fallback : Key) (id : String) :
    (r.fold s fallback).card? id = (r.card? id).map fun c =>
      if c.board = s.board then restaged s.key fallback c else c := by
  -- the ids that are restaged: those of the cards in the stage
  have hmem : id ∈ ((r.close s).cardsIn s.board s.key).map (·.id) ↔
      ∃ c, r.card? id = some c ∧ c.board = s.board ∧ c.stage = s.key := by
    have hcards : (r.close s).cards = r.cards := rfl
    simp only [List.mem_map, cardsIn_mem, h.card_mem, hcards]
    constructor
    · rintro ⟨c, ⟨hc, hb, hs⟩, hid⟩
      exact ⟨c, ⟨hc, hid⟩, hb, hs⟩
    · rintro ⟨c, ⟨hc, hid⟩, hb, hs⟩
      exact ⟨c, ⟨hc, hb, hs⟩, hid⟩
  have hget := card?_restage (filed_putStage h { s with active := false }) s.key fallback
    (((r.close s).cardsIn s.board s.key).map (·.id)) id
  have hsame : (r.putStage { s with active := false }).card? id = r.card? id := rfl
  rw [hsame] at hget
  refine hget.trans ?_
  cases hc : r.card? id with
  | none => simp
  | some c =>
    rw [hc] at hmem
    by_cases hb : c.board = s.board
    · by_cases hs : c.stage = s.key
      · rw [if_pos (hmem.2 ⟨c, rfl, hb, hs⟩), Option.map_some, Option.map_some, if_pos hb]
      · rw [if_neg, Option.map_some, if_pos hb, restaged, if_neg hs]
        rw [hmem]
        rintro ⟨c', hc', -, hs'⟩
        exact hs (Option.some.inj hc' ▸ hs')
    · rw [if_neg, Option.map_some, if_neg hb]
      rw [hmem]
      rintro ⟨c', hc', hb', -⟩
      exact hb (Option.some.inj hc' ▸ hb')

/-- Folding an open stage of the board carries the places of the board. -/
theorem shown?_fold (h : r.Filed) (hn : r.Named board) {s : Stage}
    (hs : s ∈ Entries.values r.stages) (hb : s.board = board) (ha : s.active = true)
    {fallback : Key} (hf : (r.close s).isOpen board fallback) (id : String) :
    (r.fold s fallback).shown? board id =
      (r.shown? board id).map (Spot.reseat s.key fallback) := by
  unfold shown?
  rw [card?_fold h]
  cases r.card? id with
  | none => rfl
  | some c =>
    simp only [Option.map_some, Option.bind_some]
    by_cases hcb : c.board = board
    · have hcs : c.board = s.board := hcb.trans hb.symm
      rw [if_pos hcs]
      by_cases hst : c.stage = s.key
      · -- a card of the stage
        have hopen : r.isOpen board c.stage :=
          isOpen_iff.2 ⟨s, hs, hb, ha, hst.symm⟩
        have hre : restaged s.key fallback c = { c with stage := fallback } := if_pos hst
        rw [if_pos ⟨(board_restaged _ _ _).trans hcb, by rw [hre, isOpen_fold]; exact hf⟩,
          if_pos ⟨hcb, hopen⟩, hre]
        simp [Spot.ofCard, Spot.reseat, hst]
      · -- a card of another stage
        have hre : restaged s.key fallback c = c := if_neg hst
        have hiff : (r.fold s fallback).isOpen board c.stage = r.isOpen board c.stage := by
          rw [isOpen_fold, Bool.eq_iff_iff, isOpen_close h hn.distinct hs hb]
          exact and_iff_left hst
        rw [hre, hiff]
        by_cases ho : r.isOpen board c.stage
        · rw [if_pos ⟨hcb, ho⟩]
          simp [Spot.ofCard, Spot.reseat, hst]
        · rw [if_neg (by simp [ho])]
          rfl
    · -- a card of another board stays on its board
      have hnot : (if c.board = s.board then restaged s.key fallback c else c).board ≠ board := by
        split
        · rw [board_restaged]
          exact hcb
        · exact hcb
      rw [if_neg (fun hp => hnot hp.1), if_neg (fun hp => hcb hp.1)]
      rfl

/-- Folding a stage of another board moves no card of the board. -/
theorem shown?_fold_of_ne (h : r.Filed) {s : Stage} (hs : s ∈ Entries.values r.stages)
    (hb : s.board ≠ board) (fallback : Key) (id : String) :
    (r.fold s fallback).shown? board id = r.shown? board id := by
  unfold shown?
  rw [card?_fold h]
  cases r.card? id with
  | none => rfl
  | some c =>
    simp only [Option.map_some, Option.bind_some]
    by_cases hcs : c.board = s.board
    · have hnot : c.board ≠ board := fun hcb => hb (hcs.symm.trans hcb)
      rw [if_pos hcs, if_neg (fun hp => hnot ((board_restaged _ _ _).symm.trans hp.1)),
        if_neg (fun hp => hnot hp.1)]
    · have hiff : (r.fold s fallback).isOpen board c.stage = r.isOpen board c.stage := by
        rw [isOpen_fold, isOpen_close_of_ne h hs hb]
      rw [if_neg hcs, hiff]

theorem housed_fold (hh : r.Housed board) (h : r.Filed) (hn : r.Distinct board) {s : Stage}
    (hs : s ∈ Entries.values r.stages) {fallback : Key}
    (hf : s.board = board → (r.close s).isOpen board fallback) : (r.fold s fallback).Housed board := by
  intro d hd hb
  obtain ⟨c, hc, rfl⟩ := Option.map_eq_some_iff.1
    ((card?_fold h s fallback d.id).symm.trans ((filed_fold h s fallback).card_mem.2 ⟨hd, rfl⟩))
  have hcm := (h.card_mem.1 hc).1
  by_cases hcs : c.board = s.board
  · rw [if_pos hcs] at hb ⊢
    rw [board_restaged] at hb
    -- a card of the board is in the fallback now, or where it was
    have hsb : s.board = board := hcs.symm.trans hb
    rw [isOpen_fold]
    by_cases hst : c.stage = s.key
    · rw [restaged, if_pos hst]
      exact hf hsb
    · rw [restaged, if_neg hst, isOpen_close h hn hs hsb]
      exact ⟨hh c hcm hb, hst⟩
  · rw [if_neg hcs] at hb ⊢
    rw [isOpen_fold, isOpen_close_of_ne h hs (fun hsb => hcs (hb.trans hsb.symm))]
    exact hh c hcm hb

/-! ## Boards in use -/

/-- Whether some card or stage is on a board. -/
def Uses (board : Key) (r : Records) : Prop :=
  (∃ c ∈ Entries.values r.cards, c.board = board) ∨ ∃ s ∈ Entries.values r.stages, s.board = board

theorem uses_putCard (h : r.Filed) {c c₀ : Card} (hc : r.card? c.id = some c₀)
    (hb : c₀.board = c.board) (hu : (r.putCard c).Uses board) : r.Uses board := by
  rcases hu with ⟨d, hd, hdb⟩ | hs
  · rcases (mem_cards_putCard h).1 hd with rfl | ⟨hd, -⟩
    · exact .inl ⟨c₀, (h.card_mem.1 hc).1, hb.trans hdb⟩
    · exact .inl ⟨d, hd, hdb⟩
  · exact .inr hs

theorem uses_fold (h : r.Filed) {s : Stage} (hs : s ∈ Entries.values r.stages) {fallback : Key}
    (hu : (r.fold s fallback).Uses board) : r.Uses board := by
  rcases hu with ⟨d, hd, hdb⟩ | ⟨t, ht, htb⟩
  · -- cards change their stage and never their board
    obtain ⟨c, hc, rfl⟩ := Option.map_eq_some_iff.1
      ((card?_fold h s fallback d.id).symm.trans ((filed_fold h s fallback).card_mem.2 ⟨hd, rfl⟩))
    refine .inl ⟨c, (h.card_mem.1 hc).1, ?_⟩
    split at hdb
    · rwa [board_restaged] at hdb
    · exact hdb
  · rw [stages_fold] at ht
    rcases (mem_stages_putStage h).1 ht with rfl | ⟨ht, -⟩
    · exact .inr ⟨s, hs, htb⟩
    · exact .inr ⟨t, ht, htb⟩

end Records

end Kanban
