import Kanban.Proofs.Server.Reading
import Kanban.Proofs.Storage.Using

/-!
# Kanban.Proofs.Server.Serving — what a client reads of a server

A client that reads a board of an account is told of the open stages and of the cards in them, as the
records of the account have them. Once an account is in use, with or without a snapshot, reading
changes nothing.

* `display` — what is read of a board; `openCards_putCard` — and after a card was stored.
* `readFrom_ok`, `readFrom_used` — what reading comes to.
-/

namespace Kanban

open Projection (cardsOf relocate)

namespace Records

variable {r : Records} {board : Key}

/-! ## What a board shows -/

/-- The stages of a board have keys that are text. -/
def Worded (board : Key) (r : Records) : Prop :=
  ∀ s ∈ Entries.values r.stages, s.board = board → ∃ k, s.key = .text k

/-- The keys of the open stages of a board from left to right, each once. -/
def openKeys (board : Key) (r : Records) : List Key :=
  Entries.distinct (Transition.available board r)

/-- The cards in open stages of a board. -/
def openCards (board : Key) (r : Records) : List Card :=
  (Entries.values r.cards).filter fun c => c.board = board && r.isOpen board c.stage

/-- The open stages of a board and their cards. -/
def display (board : Key) (r : Records) : Listing where
  board := board
  stages := r.activeStages board
  cards := (r.openKeys board).map fun k => (k, displayOrder below (r.cardsIn board k))

theorem mem_openKeys {key : Key} : key ∈ r.openKeys board ↔ r.isOpen board key = true := by
  rw [openKeys, Entries.mem_distinct, Transition.available, isOpen_iff]
  simp only [List.mem_map, mem_activeStages, and_assoc]

theorem mem_openCards {c : Card} :
    c ∈ r.openCards board ↔
      c ∈ Entries.values r.cards ∧ c.board = board ∧ r.isOpen board c.stage = true := by
  simp [openCards]

theorem Filed.nodup_openCards (h : r.Filed) : ((r.openCards board).map (·.id)).Nodup :=
  h.nodup_cards.sublist (List.filter_sublist.map _)

theorem filed_display (h : r.Filed) : Projection.Filed (r.display board).cards :=
  filed_of_nodup h (Entries.nodup_distinct _)

/-- Every card in an open stage is shown once. -/
theorem cardsOf_display (h : r.Filed) :
    (cardsOf (r.display board).cards).Perm (r.openCards board) := by
  refine (List.perm_ext_iff_of_nodup (List.Nodup.of_map _ (filed_display h).ids)
    (List.Nodup.of_map _ h.nodup_openCards)).2 fun c => ?_
  simp only [cardsOf, display, List.mem_flatMap, List.mem_map, mem_openCards]
  constructor
  · rintro ⟨e, ⟨k, hk, rfl⟩, hc⟩
    obtain ⟨hm, hb, rfl⟩ := mem_column.1 hc
    exact ⟨hm, hb, mem_openKeys.1 hk⟩
  · rintro ⟨hm, hb, ho⟩
    exact ⟨_, ⟨c.stage, mem_openKeys.2 ho, rfl⟩, mem_column.2 ⟨hm, hb, rfl⟩⟩

theorem Worded.key (h : r.Worded board) {key : Key} (ho : r.isOpen board key = true) :
    ∃ k, key = .text k := by
  obtain ⟨s, hs, hb, -, rfl⟩ := isOpen_iff.1 ho
  exact h s hs hb

theorem proper_display (h : r.Filed) (hw : r.Worded board) : (r.display board).Proper where
  stages := fun _ hs => (mem_activeStages.1 hs).2.1
  active := by
    intro s hs
    obtain ⟨hm, hb, -⟩ := mem_activeStages.1 hs
    obtain ⟨k, hk⟩ := hw s hm hb
    rw [hk]
    rfl
  cards := fun _ hc => (mem_openCards.1 ((cardsOf_display h).mem_iff.1 hc)).2.1
  names := by
    intro e he
    obtain ⟨k, hk, rfl⟩ := List.mem_map.1 he
    obtain ⟨s, rfl⟩ := hw.key (mem_openKeys.1 hk)
    rfl
  filed := filed_display h

/-- The open cards of a board, as a client shows them, after one of them was stored in an open stage. -/
theorem openCards_putCard (h : r.Filed) {c : Card} (hc : c ∈ r.openCards board) {stage : Key}
    (ho : r.isOpen board stage = true) (x : Float) :
    (((r.putCard { c with stage, position := x }).openCards board).map Tile.ofCard).Perm
      (((r.openCards board).map Tile.ofCard).map (relocate c.id stage (.real x))) := by
  obtain ⟨hcm, hcb, -⟩ := mem_openCards.1 hc
  have hids (l : List Card) : (l.map Tile.ofCard).map (·.id) = l.map (·.id) := by
    rw [List.map_map]
    rfl
  have hmoved : relocate c.id stage (.real x) (Tile.ofCard c) =
      Tile.ofCard { c with stage, position := x } := if_pos rfl
  have hother {d : Card} (hid : d.id ≠ c.id) :
      relocate c.id stage (.real x) (Tile.ofCard d) = Tile.ofCard d := if_neg hid
  refine (List.perm_ext_iff_of_nodup (List.Nodup.of_map (·.id) ?_)
    (List.Nodup.of_map (·.id) ?_)).2 fun t => ?_
  · rw [hids]
    exact (filed_putCard h _).nodup_openCards
  · have hkeep : (fun t : Tile => (relocate c.id stage (.real x) t).id) = fun t => t.id :=
      funext fun t => Projection.id_relocate _ _ _ t
    rw [List.map_map, Function.comp_def, hkeep, hids]
    exact h.nodup_openCards
  · simp only [List.map_map, List.mem_map, mem_openCards, mem_cards_putCard h, isOpen_putCard,
      Function.comp_apply]
    constructor
    · rintro ⟨d, ⟨rfl | ⟨hdm, hid⟩, hb, hd⟩, rfl⟩
      · exact ⟨c, mem_openCards.1 hc, hmoved⟩
      · exact ⟨d, ⟨hdm, hb, hd⟩, hother hid⟩
    · rintro ⟨d, ⟨hdm, hb, hd⟩, rfl⟩
      by_cases hid : d.id = c.id
      · -- no other card has the id
        obtain rfl : d = c := List.inj_on_of_nodup_map h.nodup_cards hdm hcm hid
        exact ⟨_, ⟨.inl rfl, hcb, ho⟩, hmoved.symm⟩
      · exact ⟨d, ⟨.inr ⟨hdm, hid⟩, hb, hd⟩, (hother hid).symm⟩

end Records

/-! ## Reading -/

namespace Server

open Operation

variable {account : String} {board : Key} {v : Service} {s t : Server}

theorem use_apply (account : String) (s : Server) :
    Server.use account s =
      ((Storage.use account s.storage).1, { s with storage := (Storage.use account s.storage).2 }) :=
  rfl

/-- Reading a board: who may not is refused, then the account is used, and what is there is told. -/
theorem readFrom_apply (v : Service) (account : String) (board : Key) (s : Server) :
    Client.readFrom v account board s =
      if v.authorize account (v.boardOf board) then
        match Server.use account s with
        | (.error e, t) => (.error e, t)
        | (.ok (), t) =>
          if ((t.records account).activeStages (v.boardOf board)).all (·.key.isName) then
            (.ok (Listing.toPayload {
              board := v.boardOf board
              stages := (t.records account).activeStages (v.boardOf board)
              cards := Entries.ofList (((t.records account).activeStages (v.boardOf board)).map
                fun s => (s.key, displayOrder below (Service.firstCards v.settings.stageCardLimit
                  ((t.records account).cardsIn (v.boardOf board) s.key)))) }), t)
          else (.error (.unreadable .wrongKind), t)
      else (.error (.refused (Refusal.denied (v.boardOf board)).error), s) := by
  unfold Client.readFrom Service.board
  rw [bind_apply]
  cases hauth : v.authorize account (v.boardOf board) with
  | false => rfl
  | true =>
    simp only [Bool.not_true, Bool.false_eq_true, if_false, if_true, bind_apply, get_apply]
    cases Server.use account s with
    | mk result t =>
      cases result with
      | error e => rfl
      | ok u =>
        cases hn : ((t.records account).activeStages (v.boardOf board)).all (·.key.isName) with
        | false =>
          simp only [hn, Bool.not_false, if_true, Bool.false_eq_true, if_false, bind_apply, throw_apply]
        | true => simp only [hn, Bool.not_true, Bool.false_eq_true, if_false, if_true, pure_apply]

/-- Where no stage is cut short, all columns are shown. -/
theorem cards_display (hc : t.Covers v account board) :
    Entries.ofList (((t.records account).activeStages board).map fun s => (s.key,
      displayOrder below (Service.firstCards v.settings.stageCardLimit
        ((t.records account).cardsIn board s.key)))) =
      ((t.records account).display board).cards := by
  -- no column is cut short
  have hshown (k : Key) : Service.firstCards v.settings.stageCardLimit
      ((t.records account).cardsIn board k) = (t.records account).cardsIn board k :=
    firstCards_of_le (hc k)
  have hmap := Entries.ofList_map
    (fun k => displayOrder below ((t.records account).cardsIn board k))
    (Transition.available board (t.records account))
  rw [Transition.available, List.map_map] at hmap
  simp only [hshown]
  exact hmap

/-- What was read of a board that is not cut short. -/
theorem readFrom_ok {payload : Value} (h : Client.readFrom v account board s = (.ok payload, t))
    (hc : t.Covers v account (v.boardOf board)) :
    v.authorize account (v.boardOf board) = true ∧
      t.storage.repository.loaded.contains account = true ∧
      payload = ((t.records account).display (v.boardOf board)).toPayload ∧
      t.allocator = s.allocator := by
  -- however the read ends, the account is in use then
  have hloaded := Storage.loaded_use account s.storage
  rw [readFrom_apply, use_apply] at h
  split at h
  · rename_i hauth
    cases hu : (Storage.use account s.storage).1 with
    | error e =>
      rw [hu] at h
      cases h
    | ok u =>
      rw [hu] at h
      dsimp only at h
      split at h
      · obtain ⟨hp, rfl⟩ := Prod.mk.inj h
        refine ⟨hauth, hloaded, ?_, rfl⟩
        rw [← Except.ok.inj hp, cards_display hc]
        rfl
      · cases h
  · cases h

/-- An account that is in use is read as it is. -/
theorem readFrom_used (hl : s.storage.repository.loaded.contains account = true)
    (hauth : v.authorize account board = true) {b : Key} (hboard : v.boardOf b = board)
    (hw : (s.records account).Worded board) (hc : s.Covers v account board) :
    Client.readFrom v account b s = (.ok ((s.records account).display board).toPayload, s) := by
  have huse : Server.use account s = (.ok (), s) := by rw [use_apply, Storage.use_of_loaded hl]
  -- a board in words can be answered with
  have hnames : ((s.records account).activeStages board).all (·.key.isName) = true := by
    rw [List.all_eq_true]
    intro stage hs
    obtain ⟨hm, hb, -⟩ := Records.mem_activeStages.1 hs
    obtain ⟨k, hk⟩ := hw stage hm hb
    rw [hk]
    rfl
  rw [readFrom_apply, hboard, hauth, if_pos rfl, huse]
  dsimp only
  rw [if_pos hnames, cards_display hc]
  rfl

end Server

end Kanban
