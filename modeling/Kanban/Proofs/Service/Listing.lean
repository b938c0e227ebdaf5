import Kanban.Proofs.Projection.Awaited
import Kanban.Proofs.Server.Deactivating
import Kanban.Proofs.Server.Serving
import Kanban.Proofs.Service.Calls

/-!
# Kanban.Proofs.Service.Listing — a board as it is read

A read of a board lists its active stages, and under the key of each the first cards of the stage.
Which cards these are is decided by position, the order among them by what asks for attention, and
both times cards of equal rank keep the order in which they are stored. A client that is sent the
answer puts the cards in order once more, and nothing moves.

* `Records.listing` — what is read; `Service.board_ok` — that it is read.
* `Records.Ahead`, `Records.ShownAhead` — the two orders of cards.
* `pairwise_column`, `cut_column` — which cards are listed, and in which order.
* `Projection.columns_refresh` — what a client shows of it.
* `Records.Reads` — all that is promised of a read.
-/

namespace Kanban

open Projection (cardsOf)

/-- Of equal floats neither is below the other. -/
theorem Decimal.not_lt_of_beq {x y : Float} (h : (x == y) = true) : ¬ x < y ∧ ¬ y < x := by
  have heq : (x == y) = x.toModel.unpack.beq y.toModel.unpack := rfl
  rw [heq, beq_iff_rankOf] at h
  obtain ⟨r, hx, hy⟩ := h
  have hrx : rank? x = some r := hx
  have hry : rank? y = some r := hy
  simp [lt_iff_rank, hrx, hry]

namespace Entries

variable {κ α : Type} [DecidableEq κ]

/-- What is under a key after different keys were put: what was put, or what was there before. -/
theorem get?_foldl_put {ps : Entries κ α} (hps : (keys ps).Nodup) (m : Entries κ α) (k : κ) :
    get? k (ps.foldl (fun m p => put p.1 p.2 m) m) = (get? k ps).or (get? k m) := by
  induction ps generalizing m with
  | nil => rfl
  | cons p ps ih =>
    obtain ⟨k', a⟩ := p
    obtain ⟨hk', hps⟩ := List.nodup_cons.1 hps
    rw [List.foldl_cons, ih hps]
    by_cases h : k' = k
    · subst h
      rw [get?_eq_none_iff.2 hk', get?_put_self, get?, if_pos rfl, Option.none_or, Option.some_or]
    · rw [get?_put_of_ne (Ne.symm h), get?, if_neg h]

end Entries

namespace Records

variable {r : Records} {board key : Key} {limit : Int} {c d : Card}

/-! ## What is read -/

/-- The first cards of a stage as they are listed. -/
def column (limit : Int) (board key : Key) (r : Records) : List Card :=
  displayOrder below (Service.firstCards limit (r.cardsIn board key))

/-- A board as it is read. -/
def listing (limit : Int) (board : Key) (r : Records) : Listing where
  board := board
  stages := r.activeStages board
  cards := (r.openKeys board).map fun k => (k, r.column limit board k)

/-- The cards that are stored under a board and a stage, in the order in which they are stored. -/
def stored (board key : Key) (r : Records) : List Card :=
  (Entries.values r.cards).filter fun c => c.board = board && c.stage = key

/-- A card comes before another: it has a lower position, or an equal one and was stored before. -/
def Ahead (r : Records) (c d : Card) : Prop :=
  c.position < d.position ∨
    (c.position == d.position) = true ∧ [c, d].Sublist (Entries.values r.cards)

/-- A card is shown before another: it alone asks for attention, or both do or neither does and it
comes before. -/
def ShownAhead (r : Records) (c d : Card) : Prop :=
  (c.isUnread = true ∧ d.isUnread = false) ∨ (c.isUnread = d.isUnread ∧ r.Ahead c d)

/-- Of two cards at most one comes before the other. -/
theorem Ahead.asymm (hf : r.Filed) (h : r.Ahead c d) : ¬ r.Ahead d c := by
  have hnodup : (Entries.values r.cards).Nodup := List.Nodup.of_map _ hf.nodup_cards
  rcases h with hlt | ⟨heq, hsub⟩ <;> rintro (hlt' | ⟨heq', hsub'⟩)
  · exact absurd hlt' (of_decide_eq_false (Decimal.below_asymm (decide_eq_true hlt)))
  · exact (Decimal.not_lt_of_beq heq').2 hlt
  · exact (Decimal.not_lt_of_beq heq).2 hlt'
  · exact Sorting.not_sublist_swap hnodup hsub hsub'

theorem mem_stored : c ∈ r.stored board key ↔
    c ∈ Entries.values r.cards ∧ c.board = board ∧ c.stage = key := by
  simp [stored]

theorem cardsIn_perm (board key : Key) (r : Records) :
    (r.cardsIn board key).Perm (r.stored board key) :=
  Sorting.sort_perm _ _

/-! ## The cards of a stage -/

theorem column_perm (hl : 0 ≤ limit) (board key : Key) (r : Records) :
    (r.column limit board key).Perm ((r.cardsIn board key).take limit.toNat) := by
  have hfirst : Service.firstCards limit (r.cardsIn board key) =
      (r.cardsIn board key).take limit.toNat := if_neg (Int.not_lt.2 hl)
  rw [column, hfirst]
  exact displayOrder_perm _ _

theorem mem_stored_of_mem_column (hl : 0 ≤ limit) (h : c ∈ r.column limit board key) :
    c ∈ r.stored board key :=
  (cardsIn_perm board key r).mem_iff.1 (List.mem_of_mem_take ((column_perm hl _ _ r).mem_iff.1 h))

theorem length_column (hl : 0 ≤ limit) (board key : Key) (r : Records) :
    (r.column limit board key).length = min limit.toNat (r.stored board key).length := by
  rw [(column_perm hl board key r).length_eq, List.length_take,
    (cardsIn_perm board key r).length_eq]

theorem nodup_column (hf : r.Filed) (hl : 0 ≤ limit) (board key : Key) :
    ((r.column limit board key).map (·.id)).Nodup := by
  have hcards : ((r.cardsIn board key).map (·.id)).Nodup := by
    rw [((cardsIn_perm board key r).map _).nodup_iff]
    exact hf.nodup_cards.sublist (List.filter_sublist.map _)
  rw [((column_perm hl board key r).map _).nodup_iff]
  exact hcards.sublist ((List.take_sublist _ _).map _)

/-- A card that is left out comes behind every card that is listed. -/
theorem cut_column (hf : r.Filed) (hpos : ∀ c ∈ Entries.values r.cards, c.position.isNaN = false)
    (hl : 0 ≤ limit) (hc : c ∈ r.column limit board key) (hd : d ∈ r.stored board key)
    (hout : d ∉ r.column limit board key) : r.Ahead c d := by
  have horder := Deactivation.order_cardsIn hf hpos board key
  rw [← List.take_append_drop limit.toNat (r.cardsIn board key), List.pairwise_append] at horder
  rw [(column_perm hl board key r).mem_iff] at hc hout
  have hd' :
      d ∈ (r.cardsIn board key).take limit.toNat ++ (r.cardsIn board key).drop limit.toNat := by
    rw [List.take_append_drop]
    exact (cardsIn_perm board key r).mem_iff.2 hd
  exact horder.2.2 c hc d ((List.mem_append.1 hd').resolve_left hout)

/-- Cards are listed as they are to be shown. -/
theorem pairwise_column (hf : r.Filed)
    (hpos : ∀ c ∈ Entries.values r.cards, c.position.isNaN = false) (hl : 0 ≤ limit)
    (board key : Key) : (r.column limit board key).Pairwise r.ShownAhead := by
  have hfirst : Service.firstCards limit (r.cardsIn board key) =
      (r.cardsIn board key).take limit.toNat := if_neg (Int.not_lt.2 hl)
  rw [column, hfirst]
  have htake : ((r.cardsIn board key).take limit.toNat).Pairwise r.Ahead :=
    (Deactivation.order_cardsIn hf hpos board key).sublist (List.take_sublist _ _)
  have hdefined : ∀ c ∈ (r.cardsIn board key).take limit.toNat, c.position.isNaN = false :=
    fun c hc => hpos c (cardsIn_mem.1 (List.mem_of_mem_take hc)).1
  have hnodup : ((r.cardsIn board key).take limit.toNat).Nodup :=
    ((cardsIn_perm board key r).nodup_iff.2
      ((List.Nodup.of_map _ hf.nodup_cards).filter _)).sublist (List.take_sublist _ _)
  refine (Sorting.pairwise_sort (CardWith.orders_shownBefore Decimal.orders_below) hdefined
    hnodup).imp fun {c d} ⟨hdc, htie⟩ => ?_
  obtain ⟨hunread, hlow⟩ := CardWith.shownBefore_eq_false_iff.1 hdc
  by_cases heq : c.isUnread = d.isUnread
  · refine .inr ⟨heq, ?_⟩
    cases hcd : CardWith.shownBefore below c d with
    | true =>
      -- of equal rank, and so the position decides
      have hbelow : below c.position d.position = true := by
        simpa [CardWith.shownBefore, heq] using hcd
      exact .inl (of_decide_eq_true hbelow)
    | false => exact List.pairwise_iff_forall_sublist.1 htake (htie hcd)
  · cases hd : d.isUnread with
    | true => exact absurd ((hunread hd).trans hd.symm) heq
    | false =>
      rw [hd] at heq
      exact .inl ⟨eq_true_of_ne_false heq, hd⟩

/-! ## The stages of a board -/

/-- The active stages of a board are listed from left to right. -/
theorem pairwise_activeStages (hf : r.Filed) (board : Key) :
    (r.activeStages board).Pairwise fun s t =>
      s.position < t.position ∨ s.position = t.position ∧ s.id < t.id := by
  have hids : ((Entries.values r.stages).map (·.id)).Nodup := hf.nodup_stages
  have hnodup : ((Entries.values r.stages).filter fun s => s.board = board && s.active).Nodup :=
    (List.Nodup.of_map _ hids).filter _
  have hrise : (r.activeStages board).Pairwise fun s t => Stage.leftOf t s = false :=
    Sorting.rises_sort Stage.orders_leftOf fun _ _ => trivial
  have hne : (r.activeStages board).Pairwise (· ≠ ·) :=
    (Stage.byPosition_perm _).nodup_iff.2 hnodup
  refine (hrise.and hne).imp_of_mem fun {s t} hs ht ⟨hts, hst⟩ => ?_
  rw [Bool.eq_false_iff, ne_eq, Stage.leftOf_iff, not_or, not_and] at hts
  obtain ⟨hpos, hid⟩ := hts
  rcases Int.lt_or_eq_of_le (Int.not_lt.1 hpos) with hlt | heq
  · exact .inl hlt
  · refine .inr ⟨heq, lt_of_le_of_ne (not_lt.1 (hid heq.symm)) fun hsame => hst ?_⟩
    exact hf.eq_of_id (mem_activeStages.1 hs).1 (mem_activeStages.1 ht).1 hsame

theorem keys_listing (limit : Int) (board : Key) (r : Records) :
    Entries.keys (r.listing limit board).cards = r.openKeys board := by
  unfold listing Entries.keys
  rw [List.map_map]
  exact List.map_id _

/-! ## Sent and shown -/

/-- No card is listed twice, and each under its stage. -/
theorem filed_listing (hf : r.Filed) (hl : 0 ≤ limit) (board : Key) :
    Projection.Filed (r.listing limit board).cards where
  keys := by
    rw [keys_listing]
    exact Entries.nodup_distinct _
  home := by
    intro e he c hc
    obtain ⟨k, -, rfl⟩ := List.mem_map.1 he
    exact (mem_stored.1 (mem_stored_of_mem_column hl hc)).2.2
  ids := by
    have hflat : (cardsOf (r.listing limit board).cards).map (·.id) =
        (r.openKeys board).flatMap fun k => (r.column limit board k).map (·.id) := by
      rw [cardsOf, List.map_flatMap, listing, List.flatMap_map]
    rw [hflat, List.nodup_flatMap]
    refine ⟨fun k _ => nodup_column hf hl board k, ?_⟩
    -- a card in two columns would have two stages
    refine List.Pairwise.imp ?_ (Entries.nodup_distinct (Transition.available board r))
    intro k k' hkk' id hid hid'
    obtain ⟨c, hc, rfl⟩ := List.mem_map.1 hid
    obtain ⟨c', hc', hid'⟩ := List.mem_map.1 hid'
    obtain ⟨hcm, -, hck⟩ := mem_stored.1 (mem_stored_of_mem_column hl hc)
    obtain ⟨hcm', -, hck'⟩ := mem_stored.1 (mem_stored_of_mem_column hl hc')
    obtain rfl : c' = c := List.inj_on_of_nodup_map hf.nodup_cards hcm' hcm hid'
    exact hkk' (hck.symm.trans hck')

theorem proper_listing (hf : r.Filed) (hw : r.Worded board) (hl : 0 ≤ limit) :
    (r.listing limit board).Proper where
  stages := fun _ hs => (mem_activeStages.1 hs).2.1
  active := (proper_display hf hw).active
  cards := by
    intro c hc
    obtain ⟨e, he, hce⟩ := List.mem_flatMap.1 hc
    obtain ⟨k, -, rfl⟩ := List.mem_map.1 he
    exact (mem_stored.1 (mem_stored_of_mem_column hl hce)).2.1
  names := by
    intro e he
    obtain ⟨k, hk, rfl⟩ := List.mem_map.1 he
    obtain ⟨s, rfl⟩ := hw.key (mem_openKeys.1 hk)
    rfl
  filed := filed_listing hf hl board

end Records

/-- A client that is shown a board has the columns that were listed, if it knows their stages and
the cards come in the order in which they are shown. -/
theorem Projection.columns_refresh {cs : Entries Key (List Card)} {p : Projection}
    (hkeys : Entries.keys cs = Entries.distinct (p.activeStages.map (·.key)))
    (hsorted : ∀ e ∈ cs, displayOrder below e.2 = e.2) :
    (p.refresh cs).columns = cs.map fun e => (e.1, e.2.map Tile.ofCard) := by
  let shown : Entries Key (List Tile) := cs.map fun e => (e.1, e.2.map Tile.ofCard)
  let empty := Entries.ofList (p.activeStages.map fun s => (s.key, ([] : List Tile)))
  have hkeysShown : Entries.keys shown = Entries.keys cs :=
    Entries.keys_map (fun _ l => l.map Tile.ofCard) cs
  have hkeysEmpty : Entries.keys empty = Entries.keys cs := by
    have hempty := Entries.ofList_map (fun _ => ([] : List Tile)) (p.activeStages.map (·.key))
    rw [List.map_map] at hempty
    rw [hkeys]
    refine (congrArg Entries.keys hempty).trans ?_
    rw [Entries.keys, List.map_map]
    exact List.map_id _
  have hnodup : (Entries.keys shown).Nodup := by
    rw [hkeysShown, hkeys]
    exact Entries.nodup_distinct _
  -- the cards are put in order again, and they are in order
  have hput : (p.refresh cs).columns = shown.foldl (fun m e => Entries.put e.1 e.2 m) empty := by
    have hsame : shown = cs.map fun e => (e.1, (displayOrder below e.2).map Tile.ofCard) :=
      List.map_congr_left fun e he => by rw [hsorted e he]
    rw [hsame, List.foldl_map]
    rfl
  rw [hput]
  refine Entries.eq_of_keys hnodup ?_ fun k hk => ?_
  · rw [Entries.keys_foldl_put_of_mem, hkeysEmpty, hkeysShown]
    intro e he
    rw [hkeysEmpty, ← hkeysShown]
    exact Entries.mem_keys_of_mem he
  · rw [Entries.get?_foldl_put hnodup]
    have hsome := mt Entries.get?_eq_none_iff.1 (not_not_intro hk)
    obtain ⟨l, hl⟩ := Option.ne_none_iff_exists'.1 hsome
    rw [hl, Option.some_or]

namespace Records

variable {r : Records} {board : Key} {limit : Int}

/-- What a client shows that was sent a listing. -/
theorem refresh_listing (hf : r.Filed) (hw : r.Worded board) (hl : 0 ≤ limit) (p : Projection) :
    ∃ q, Projection.applyRefresh (r.listing limit board).toPayload p = (.ok (), q) ∧
      q.board = board ∧ q.stages = (r.listing limit board).stages ∧
      q.columns = (r.listing limit board).cards.map fun e => (e.1, e.2.map Tile.ofCard) := by
  -- what becomes of moves that wait leaves board and stages alone
  have hsame := Projection.same_supersede (fun _ => true)
    { p with board := board, stages := r.activeStages board }
  refine ⟨_, Projection.applyRefresh_listing (proper_listing hf hw hl) p, hsame.board,
    hsame.stages, ?_⟩
  have hactive : (r.activeStages board).filter (·.active) = r.activeStages board :=
    List.filter_eq_self.2 fun s hs => (mem_activeStages.1 hs).2.2
  refine Projection.columns_refresh ?_ fun e he => ?_
  · rw [keys_listing]
    exact congrArg (fun l => Entries.distinct (l.map (·.key))) hactive.symm
  · obtain ⟨k, -, rfl⟩ := List.mem_map.1 he
    exact Sorting.sort_sort (CardWith.asymm_shownBefore fun _ _ => Decimal.below_asymm) _

/-! ## What is promised -/

/-- A listing shows a board as its records are: the active stages from left to right, and under
the key of each the first cards of the stage, those that ask for attention first. -/
structure Reads (r : Records) (b : Key) (limit : Int) (l : Listing) : Prop where
  board : l.board = b
  stages : ∀ s, s ∈ l.stages ↔ s ∈ Entries.values r.stages ∧ s.board = b ∧ s.active = true
  left : l.stages.Pairwise fun s t =>
    s.position < t.position ∨ s.position = t.position ∧ s.id < t.id
  once : (Entries.keys l.cards).Nodup
  keys : ∀ k, k ∈ Entries.keys l.cards ↔ ∃ s ∈ l.stages, s.key = k
  cards : ∀ e ∈ l.cards, (e.2.map (·.id)).Nodup ∧ (∀ c ∈ e.2, c ∈ r.stored b e.1) ∧
    e.2.length = min limit.toNat (r.stored b e.1).length
  cut : ∀ e ∈ l.cards, ∀ c ∈ e.2, ∀ d ∈ r.stored b e.1, d ∉ e.2 → r.Ahead c d ∧ ¬ r.Ahead d c
  shown : ∀ e ∈ l.cards, e.2.Pairwise r.ShownAhead

theorem reads_listing (hf : r.Filed)
    (hpos : ∀ c ∈ Entries.values r.cards, c.position.isNaN = false) (hl : 0 ≤ limit) :
    r.Reads board limit (r.listing limit board) where
  board := rfl
  stages := fun _ => mem_activeStages
  left := pairwise_activeStages hf board
  once := by
    rw [keys_listing]
    exact Entries.nodup_distinct _
  keys := by
    intro k
    rw [keys_listing, mem_openKeys, isOpen_iff]
    simp only [listing, mem_activeStages, and_assoc]
  cards := by
    intro e he
    obtain ⟨k, -, rfl⟩ := List.mem_map.1 he
    exact ⟨nodup_column hf hl board k, fun c => mem_stored_of_mem_column hl,
      length_column hl board k r⟩
  cut := by
    intro e he c hc d hd hout
    obtain ⟨k, -, rfl⟩ := List.mem_map.1 he
    have hahead := cut_column hf hpos hl hc hd hout
    exact ⟨hahead, hahead.asymm hf⟩
  shown := by
    intro e he
    obtain ⟨k, -, rfl⟩ := List.mem_map.1 he
    exact pairwise_column hf hpos hl board k

end Records

namespace Service

variable {v : Service} {account : String} {b : Value} {s t : Server}

/-- A board that may be used is read exactly if the keys of its active stages are names, once its
account is in use. -/
theorem board_of_use (huse : Server.use account s = (.ok (), t))
    (hauth : v.authorize account (v.boardOf b) = true) :
    v.board account b s =
      if ((t.records account).activeStages (v.boardOf b)).all (·.key.isName) then
        (.ok (.ok ((t.records account).listing v.settings.stageCardLimit (v.boardOf b))), t)
      else (.error (.unreadable .wrongKind), t) := by
  have hcards := Entries.ofList_map
    (fun k => (t.records account).column v.settings.stageCardLimit (v.boardOf b) k)
    (Transition.available (v.boardOf b) (t.records account))
  rw [Transition.available, List.map_map] at hcards
  rw [board_apply, if_pos hauth, huse]
  dsimp only
  split
  · exact congrArg (fun cards => (Except.ok (Except.ok (Listing.mk _ _ cards)), t)) hcards
  · rfl

theorem board_ok (huse : Server.use account s = (.ok (), t))
    (hw : (t.records account).Worded (v.boardOf b))
    (hauth : v.authorize account (v.boardOf b) = true) :
    v.board account b s =
      (.ok (.ok ((t.records account).listing v.settings.stageCardLimit (v.boardOf b))), t) := by
  have hnames : ((t.records account).activeStages (v.boardOf b)).all (·.key.isName) = true := by
    rw [List.all_eq_true]
    intro x hx
    obtain ⟨hm, hb, -⟩ := Records.mem_activeStages.1 hx
    obtain ⟨k, hk⟩ := hw x hm hb
    rw [hk]
    rfl
  rw [board_of_use huse hauth, if_pos hnames]

/-- A board that may be used is read as its records are, and a client that is sent the answer
shows the same stages and the same cards in the same order. -/
theorem reads_board (huse : Server.use account s = (.ok (), t)) (hf : (t.records account).Filed)
    (hw : (t.records account).Worded (v.boardOf b))
    (hpos : ∀ c ∈ Entries.values (t.records account).cards, c.position.isNaN = false)
    (hauth : v.authorize account (v.boardOf b) = true) (hl : 0 ≤ v.settings.stageCardLimit) :
    ∃ l, v.board account b s = (.ok (.ok l), t) ∧
      (t.records account).Reads (v.boardOf b) v.settings.stageCardLimit l ∧
      ∀ p, ∃ q, Projection.applyRefresh l.toPayload p = (.ok (), q) ∧
        q.board = l.board ∧ q.stages = l.stages ∧
        q.columns = l.cards.map fun e => (e.1, e.2.map Tile.ofCard) :=
  ⟨_, board_ok huse hw hauth, Records.reads_listing hf hpos hl, Records.refresh_listing hf hw hl⟩

/-- An account with an empty stage, one that is closed, and one with two cards at each of two
positions; cards 1 and 4, at the higher of them, ask for attention. -/
def crowded : Server where
  storage := {
    repository := {
      accounts := [("acme", {
        cards := [("1", ⟨"1", "sales", "new", 2.0, 1, []⟩), ("2", ⟨"2", "sales", "new", 1.0, 0, []⟩),
          ("3", ⟨"3", "sales", "new", 1.0, 0, []⟩), ("4", ⟨"4", "sales", "new", 2.0, 5, []⟩)]
        stages := [("1", { id := "1", board := "sales", key := "won", name := "Won", position := 1 }),
          ("2", { id := "2", board := "sales", key := "new", name := "New" }),
          ("3", { id := "3", board := "sales", key := "lost", name := "Lost", active := false })] })]
      loaded := ["acme"]
      nextStage := 4 } }

/-- A service that lists three cards of a stage. -/
def brief : Service where
  settings := { stageCardLimit := 3 }

/-- Card 4 is cut off, behind card 1 at the same position, and card 1 is shown first. -/
theorem reads_crowded :
    (∃ l, brief.board "acme" "sales" crowded = (.ok (.ok l), crowded) ∧
      (crowded.records "acme").Reads "sales" 3 l) ∧
    ((crowded.records "acme").listing 3 "sales").cards.map (fun e => (e.1, e.2.map (·.id))) =
      [(.text "new", ["1", "2", "3"]), (.text "won", [])] := by
  have hworded : (crowded.records "acme").Worded "sales" := by
    intro x hx _
    rcases List.mem_cons.1 hx with rfl | hx
    · exact ⟨"won", rfl⟩
    · rcases List.mem_cons.1 hx with rfl | hx
      · exact ⟨"new", rfl⟩
      · obtain rfl := List.mem_singleton.1 hx
        exact ⟨"lost", rfl⟩
  obtain ⟨l, hl, hreads, -⟩ := @reads_board brief "acme" "sales" crowded crowded rfl
    ⟨by decide, by decide, by decide, by decide⟩ hworded (by decide +kernel) rfl (by decide)
  exact ⟨⟨l, hl, hreads⟩, by decide +kernel⟩

end Service

end Kanban
