import Kanban.Client
import Kanban.Proofs.Server.Telling

/-!
# Kanban.Proofs.Server.Reading — reading a board

A service that may show the board, and may show all of its cards, answers with a listing of the
cards in open stages. Reading changes nothing that a board's subscribers could notice.

* `Covers` — no stage has more cards than the service shows.
* `readFrom_listing` — what is read is a listing of the places that the server has.
* `sample` — a small server in order.
-/

namespace Kanban

open Projection (Spot cardsOf)

namespace Records

variable {r : Records} {board : Key}

/-- The columns of the open stages of a board, in display order. -/
def columns (board : Key) (r : Records) : Entries Key (List Card) :=
  (r.activeStages board).map fun s => (s.key, displayOrder below (r.cardsIn board s.key))

theorem Filed.nodup_stages (h : r.Filed) : ((Entries.values r.stages).map (·.id)).Nodup := by
  -- the ids are the keys, and these are distinct
  have hids : (Entries.values r.stages).map (·.id) = Entries.keys r.stages := by
    rw [Entries.values, Entries.keys, List.map_map]
    exact List.map_congr_left fun e he => h.stageIds e he
  rw [hids]
  exact h.stages

theorem Filed.nodup_cards (h : r.Filed) : ((Entries.values r.cards).map (·.id)).Nodup := by
  have hids : (Entries.values r.cards).map (·.id) = Entries.keys r.cards := by
    rw [Entries.values, Entries.keys, List.map_map]
    exact List.map_congr_left fun e he => h.cardIds e he
  rw [hids]
  exact h.cards

theorem nodup_activeStages (h : r.Filed) (hn : r.Named board) :
    ((r.activeStages board).map (·.key)).Nodup := by
  have hids : ((r.activeStages board).map (·.id)).Nodup := by
    unfold activeStages
    rw [((Stage.byPosition_perm _).map _).nodup_iff]
    exact h.nodup_stages.sublist (List.filter_sublist.map _)
  refine List.Nodup.map_on (fun s hs t ht hk => ?_) (List.Nodup.of_map _ hids)
  obtain ⟨hsm, hsb, -⟩ := mem_activeStages.1 hs
  obtain ⟨htm, htb, -⟩ := mem_activeStages.1 ht
  exact hn.distinct s hsm t htm hsb htb hk

theorem mem_column {key : Key} {c : Card} :
    c ∈ displayOrder below (r.cardsIn board key) ↔
      c ∈ Entries.values r.cards ∧ c.board = board ∧ c.stage = key := by
  rw [(displayOrder_perm _ _).mem_iff, cardsIn_mem]

/-- The cards of the columns are those in open stages of the board. -/
theorem mem_cardsOf_columns {c : Card} :
    c ∈ cardsOf (r.columns board) ↔
      c ∈ Entries.values r.cards ∧ c.board = board ∧ r.isOpen board c.stage := by
  rw [isOpen_iff]
  simp only [cardsOf, columns, List.mem_flatMap, List.mem_map]
  constructor
  · rintro ⟨e, ⟨s, hs, rfl⟩, hc⟩
    obtain ⟨hcm, hcb, hcs⟩ := mem_column.1 hc
    obtain ⟨hsm, hsb, hsa⟩ := mem_activeStages.1 hs
    exact ⟨hcm, hcb, s, hsm, hsb, hsa, hcs.symm⟩
  · rintro ⟨hcm, hcb, s, hsm, hsb, hsa, hk⟩
    exact ⟨_, ⟨s, mem_activeStages.2 ⟨hsm, hsb, hsa⟩, rfl⟩, mem_column.2 ⟨hcm, hcb, hk.symm⟩⟩

/-- Under different keys no card is listed twice. -/
theorem filed_of_nodup (h : r.Filed) {ks : List Key} (hk : ks.Nodup) :
    Projection.Filed (ks.map fun k => (k, displayOrder below (r.cardsIn board k))) where
  keys := by
    have hkeys : Entries.keys (ks.map fun k => (k, displayOrder below (r.cardsIn board k))) = ks := by
      rw [Entries.keys, List.map_map]
      exact List.map_id ks
    rw [hkeys]
    exact hk
  home := by
    intro e he c hc
    obtain ⟨k, -, rfl⟩ := List.mem_map.1 he
    exact (mem_column.1 hc).2.2
  ids := by
    have hflat : (cardsOf (ks.map fun k => (k, displayOrder below (r.cardsIn board k)))).map (·.id) =
        ks.flatMap fun k => (displayOrder below (r.cardsIn board k)).map (·.id) := by
      rw [cardsOf, List.map_flatMap, List.flatMap_map]
    rw [hflat, List.nodup_flatMap]
    constructor
    · intro k _
      have hperm : (displayOrder below (r.cardsIn board k)).Perm
          ((Entries.values r.cards).filter fun c => c.board = board && c.stage = k) :=
        (displayOrder_perm _ _).trans (Sorting.sort_perm _ _)
      rw [(hperm.map _).nodup_iff]
      exact h.nodup_cards.sublist (List.filter_sublist.map _)
    · -- a card in two columns would have two stages
      refine List.Pairwise.imp ?_ hk
      intro k l hne id hs ht
      obtain ⟨c, hc, rfl⟩ := List.mem_map.1 hs
      obtain ⟨d, hd, hid⟩ := List.mem_map.1 ht
      obtain ⟨hcm, -, hcs⟩ := mem_column.1 hc
      obtain ⟨hdm, -, hds⟩ := mem_column.1 hd
      have heq : d = c := List.inj_on_of_nodup_map h.nodup_cards hdm hcm hid
      exact hne (hcs.symm.trans (heq ▸ hds))

/-- Each card is in one column. -/
theorem filed_columns (h : r.Filed) (hn : r.Named board) :
    Projection.Filed (r.columns board) := by
  have hcolumns : r.columns board = ((r.activeStages board).map (·.key)).map
      fun k => (k, displayOrder below (r.cardsIn board k)) := by
    rw [columns, List.map_map]
    rfl
  rw [hcolumns]
  exact filed_of_nodup h (nodup_activeStages h hn)

/-- The places in the columns are those of the cards in open stages. -/
theorem find?_columns (h : r.Filed) (id : String) :
    ((cardsOf (r.columns board)).find? (·.id = id)).map Spot.ofCard = r.shown? board id := by
  cases hf : (cardsOf (r.columns board)).find? (·.id = id) with
  | none =>
    symm
    rw [Option.map_none, Option.eq_none_iff_forall_ne_some]
    intro z hz
    obtain ⟨c, hc, hb, ho, -⟩ := shown?_eq_some_iff.1 hz
    obtain ⟨hm, hid⟩ := h.card_mem.1 hc
    have hmem := mem_cardsOf_columns.2 ⟨hm, hb, ho⟩
    simpa [hid] using List.find?_eq_none.1 hf c hmem
  | some c =>
    have hid : c.id = id := by simpa using List.find?_some hf
    obtain ⟨hm, hb, ho⟩ := mem_cardsOf_columns.1 (List.mem_of_find?_eq_some hf)
    exact (shown?_eq_some_iff.2 ⟨c, h.card_mem.2 ⟨hm, hid⟩, hb, ho, rfl⟩).symm

end Records

namespace Server

open Operation

variable {account : String} {board : Key} {s : Server}

/-- No stage of the board has more cards than the service shows. -/
def Covers (v : Service) (account : String) (board : Key) (s : Server) : Prop :=
  ∀ k, (((s.records account).cardsIn board k).length : Int) ≤ v.settings.stageCardLimit

/-- Stages have no more cards than the account. -/
theorem covers_of_length {v : Service}
    (h : ((s.records account).cards.length : Int) ≤ v.settings.stageCardLimit) :
    s.Covers v account board := by
  intro k
  have hsort : ((s.records account).cardsIn board k).length =
      ((Entries.values (s.records account).cards).filter
        fun c => c.board = board && c.stage = k).length :=
    (Sorting.sort_perm _ _).length_eq
  have hfilter := List.length_filter_le (fun c : Card => c.board = board && c.stage = k)
    (Entries.values (s.records account).cards)
  have hvalues : (Entries.values (s.records account).cards).length =
      (s.records account).cards.length := List.length_map _
  omega

/-- Using an account changes no records where there are no snapshots. -/
theorem use_memory (h : s.storage.folder = none) (account : String) :
    ∃ t, Server.use account s = (.ok (), t) ∧ t.storage.folder = none ∧
      (∀ a, t.records a = s.records a) ∧ t.channel = s.channel := by
  have huse : Server.use account s =
      ((Storage.use account s.storage).1, { s with storage := (Storage.use account s.storage).2 }) :=
    rfl
  by_cases hc : s.storage.repository.loaded.contains account
  · -- used before
    have hst : Storage.use account s.storage = (.ok (), s.storage) := by
      unfold Storage.use
      simp only [bind_apply, get_apply, hc, if_true, pure_apply]
    exact ⟨s, by rw [huse, hst], h, fun _ => rfl, rfl⟩
  · -- used for the first time: there is nothing to load
    have hst : Storage.use account s.storage = (.ok (), { s.storage with
        repository := { s.storage.repository with
          loaded := account :: s.storage.repository.loaded } }) := by
      unfold Storage.use
      simp only [bind_apply, get_apply, hc, Bool.false_eq_true, if_false, set_apply, h, pure_apply]
    refine ⟨{ s with storage := (Storage.use account s.storage).2 }, ?_, ?_, ?_, rfl⟩
    · rw [huse, hst]
    · rw [hst]
      exact h
    · intro a
      rw [hst]
      rfl

theorem firstCards_of_le {limit : Int} {cards : List Card} (h : (cards.length : Int) ≤ limit) :
    Service.firstCards limit cards = cards := by
  unfold Service.firstCards
  rw [if_neg (by omega), List.take_of_length_le (by omega)]

/-- The listing of the board. -/
def listing (account : String) (board : Key) (s : Server) : Listing where
  board := board
  stages := (s.records account).activeStages board
  cards := (s.records account).columns board

theorem Keeps.isName (h : s.Keeps account board) {stage : Stage}
    (hs : stage ∈ (s.records account).activeStages board) : ∃ k, stage.key = .text k := by
  obtain ⟨hm, hb, -⟩ := Records.mem_activeStages.1 hs
  exact h.named.text stage hm hb

theorem proper_listing (h : s.Keeps account board) : (s.listing account board).Proper where
  stages := fun _ hs => (Records.mem_activeStages.1 hs).2.1
  active := by
    intro stage hs
    obtain ⟨k, hk⟩ := h.isName hs
    rw [hk]
    rfl
  cards := fun _ hc => (Records.mem_cardsOf_columns.1 hc).2.1
  names := by
    intro e he
    obtain ⟨stage, hs, rfl⟩ := List.mem_map.1 he
    obtain ⟨k, hk⟩ := h.isName hs
    rw [hk]
    rfl
  filed := Records.filed_columns (h.filed account) h.named

/-- A service that may show all cards of the board answers with its listing. -/
theorem board_listing (h : s.Keeps account board) {v : Service}
    (hauth : v.authorize account board = true) (hboard : v.boardOf board = board)
    (hcov : s.Covers v account board) :
    ∃ t, v.board account board s = (.ok (.ok (s.listing account board)), t) ∧
      Step account board none s t ∧ (∀ a, t.records a = s.records a) ∧ t.channel = s.channel := by
  obtain ⟨t, huse, hm, hr, hc⟩ := use_memory h.memory account
  have hstep : Step account board none s t := step_frame h hm hr hc
  refine ⟨t, ?_, hstep, hr, hc⟩
  have hname : (((t.records account).activeStages board).all (·.key.isName)) = true := by
    rw [hr, List.all_eq_true]
    exact (proper_listing h).active
  -- no stage is cut short
  have hshown (stage : Stage) : displayOrder below (Service.firstCards v.settings.stageCardLimit
      ((t.records account).cardsIn board stage.key)) =
        displayOrder below ((s.records account).cardsIn board stage.key) := by
    rw [hr, firstCards_of_le (hcov _)]
  have hcols : Entries.ofList (((t.records account).activeStages board).map fun stage =>
      (stage.key, displayOrder below ((s.records account).cardsIn board stage.key))) =
        (s.records account).columns board := by
    rw [hr]
    exact Entries.ofList_of_nodup (Records.filed_columns (h.filed account) h.named).keys
  unfold Service.board
  simp only [hboard, hauth, Bool.not_true, Bool.false_eq_true, if_false, bind_apply, huse,
    get_apply, hname, pure_apply, hshown, hcols, listing]
  rw [hr]

/-- What a client reads of a board is its listing, with the places that the server has. -/
theorem readFrom_listing (h : s.Keeps account board) {v : Service}
    (hauth : v.authorize account board = true) (hboard : v.boardOf board = board)
    (hcov : s.Covers v account board) :
    ∃ (l : Listing) (t : Server),
      Client.readFrom v account board s = (.ok l.toPayload, t) ∧ l.Proper ∧ l.board = board ∧
      (∀ id, ((cardsOf l.cards).find? (·.id = id)).map Spot.ofCard = s.shown? account board id) ∧
      Step account board none s t ∧ (∀ a, t.records a = s.records a) ∧ t.channel = s.channel := by
  obtain ⟨t, hb, hsame⟩ := board_listing h hauth hboard hcov
  refine ⟨s.listing account board, t, ?_, proper_listing h, rfl, ?_, hsame⟩
  · unfold Client.readFrom
    simp only [bind_apply, hb, pure_apply]
  · exact Records.find?_columns (h.filed account)

/-! ## A small server -/

/-- A stage of the board of the small server. -/
def sampleStage (key : String) (position : Int) : Stage :=
  { id := key, board := "sales", key, name := key, position }

/-- A board with a card in the first of its stages, and what an account knows of it. -/
def sampleRecords : Records where
  cards := [("1", { id := "1", board := "sales", stage := "new", position := 1.0 })]
  stages := ["new", "qualified", "proposal", "negotiation", "closed"].zipIdx.map fun e =>
    (e.1, sampleStage e.1 e.2)

/-- A server with one account, one board and one card. -/
def sample (queueSize : Int) : Server where
  storage := { repository := { accounts := [("acme", sampleRecords)], loaded := ["acme"] } }
  channel := { queueSize }

theorem records_sample_of_ne (queueSize : Int) {a : String} (h : a ≠ "acme") :
    (sample queueSize).records a = {} := by
  have hget : Entries.get? a [("acme", sampleRecords)] = none := by
    simp [Entries.get?, Ne.symm h]
  exact congrArg (·.getD {}) hget

theorem filed_sampleRecords : sampleRecords.Filed :=
  ⟨by decide, by decide, by decide, by decide⟩

theorem named_sampleRecords : sampleRecords.Named "sales" := by
  have hkeys : ∀ s ∈ Entries.values sampleRecords.stages, s.key = .text s.id := by decide
  exact ⟨fun s hs _ => ⟨s.id, hkeys s hs⟩, by decide⟩

theorem keeps_sample (queueSize : Int) : (sample queueSize).Keeps "acme" "sales" where
  memory := rfl
  filed := by
    intro a
    by_cases ha : a = "acme"
    · subst ha
      exact filed_sampleRecords
    · rw [records_sample_of_ne queueSize ha]
      exact ⟨by decide, by decide, by decide, by decide⟩
  named := named_sampleRecords
  exact := Channel.exact_new queueSize

theorem sole_sample (queueSize : Int) : (sample queueSize).Sole "acme" "sales" := by
  intro a b hu hk
  by_cases ha : a = "acme"
  · subst ha
    refine ⟨rfl, ?_⟩
    have hcards : ∀ c ∈ Entries.values sampleRecords.cards, c.board = "sales" := by decide
    have hstages : ∀ s ∈ Entries.values sampleRecords.stages, s.board = "sales" := by decide
    rcases hu with ⟨c, hc, rfl⟩ | ⟨s, hs, rfl⟩
    · exact hcards c hc
    · exact hstages s hs
  · rw [records_sample_of_ne queueSize ha] at hu
    simp [Records.Uses, Entries.values] at hu

theorem housed_sample (queueSize : Int) : (sample queueSize).Housed "acme" "sales" := by
  have hcards : ∀ c ∈ Entries.values sampleRecords.cards, c.board = "sales" →
      sampleRecords.isOpen "sales" c.stage := by decide
  exact hcards

end Server

end Kanban
