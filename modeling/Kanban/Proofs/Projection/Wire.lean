import Kanban.Proofs.Operation
import Kanban.Proofs.Projection.Hearing
import Kanban.Service

/-!
# Kanban.Proofs.Projection.Wire — events and listings as a client reads them

What the server writes is what a client reads: the events of transitions and deactivations, and
the listing of a board. Reading them never fails on a projection in order, so an event is a notice
with an effect on every place, and a listing is its columns of cards.

* `applyEvent_notice` — an event is read as the notice it tells.
* `agreed?_heed` — what a notice does to the agreed places.
* `applyRefresh_listing` — a listing is read as it was made.
-/

namespace Kanban

/-- What subscribers of a board are told. -/
inductive Notice where
  /-- A card is at a place now. -/
  | moved (card stage : String) (x : Float)
  /-- A stage was deactivated, and its cards were taken over by another. -/
  | folded (stage fallback : String)
  deriving DecidableEq

namespace Notice

/-- A notice as an event. -/
def toValue : Notice → Value
  | .moved card stage x =>
    .object [("event", "card_moved"), ("card_id", card), ("stage_key", stage),
      ("position", .real x)]
  | .folded stage fallback =>
    .object [("event", "stage_deactivated"), ("stage_key", stage),
      ("fallback_stage_key", fallback)]

/-- Where a card that was at a place is after a notice. -/
def carry (card : String) : Notice → Projection.Spot → Projection.Spot
  | .moved c stage x, z => if card = c then (.text stage, .real x) else z
  | .folded stage fallback, z => z.reseat (.text stage) (.text fallback)

/-- Whether a notice tells where a card is, wherever it was. -/
def tells (card : String) : Notice → Bool
  | .moved c _ _ => card = c
  | .folded _ _ => false

/-- Where a card that was at a place is after some notices. -/
def carryAll (card : String) (ns : List Notice) (z : Projection.Spot) : Projection.Spot :=
  ns.foldl (fun z n => n.carry card z) z

theorem carry_of_tells {card : String} {n : Notice} (h : n.tells card) (y z : Projection.Spot) :
    n.carry card y = n.carry card z := by
  cases n with
  | moved c stage x =>
    have hc : card = c := by simpa [tells] using h
    simp [carry, hc]
  | folded => simp [tells] at h

theorem map_carry_of_tells {card : String} {n : Notice} (h : n.tells card)
    {y z : Option Projection.Spot} (hs : y.isSome = z.isSome) :
    y.map (n.carry card) = z.map (n.carry card) := by
  cases y with
  | none =>
    cases z with
    | none => rfl
    | some z => simp at hs
  | some y =>
    cases z with
    | none => simp at hs
    | some z => exact congrArg some (carry_of_tells h y z)

@[simp] theorem carryAll_nil (card : String) (z : Projection.Spot) : carryAll card [] z = z := rfl

@[simp] theorem carryAll_cons (card : String) (n : Notice) (ns : List Notice)
    (z : Projection.Spot) : carryAll card (n :: ns) z = carryAll card ns (n.carry card z) := rfl

@[simp] theorem carryAll_append (card : String) (ns ms : List Notice) (z : Projection.Spot) :
    carryAll card (ns ++ ms) z = carryAll card ms (carryAll card ns z) :=
  List.foldl_append

/-- Notices that tell where a card is make its earlier place irrelevant. -/
theorem carryAll_of_tells {card : String} {ns : List Notice} (h : ∃ n ∈ ns, n.tells card)
    (y z : Projection.Spot) : carryAll card ns y = carryAll card ns z := by
  induction ns generalizing y z with
  | nil => simp at h
  | cons n ns ih =>
    rw [carryAll_cons, carryAll_cons]
    by_cases hn : n.tells card
    · rw [carry_of_tells hn y z]
    · obtain ⟨m, hm, ht⟩ := h
      rcases List.mem_cons.1 hm with rfl | hm
      · exact absurd ht hn
      · exact ih ⟨m, hm, ht⟩ _ _

/-- Whether a notice tells of a move. -/
def isMove : Notice → Bool
  | .moved _ _ _ => true
  | .folded _ _ => false

/-- Moves of other cards leave a card where it is. -/
theorem carryAll_of_not_tells {card : String} {ns : List Notice} (hm : ∀ n ∈ ns, n.isMove)
    (h : ∀ n ∈ ns, n.tells card = false) (z : Projection.Spot) : carryAll card ns z = z := by
  induction ns with
  | nil => rfl
  | cons n ns ih =>
    have hn : n.carry card z = z := by
      cases n with
      | moved c stage x =>
        have hne : card ≠ c := by simpa [tells] using h _ List.mem_cons_self
        exact if_neg hne
      | folded => simp [isMove] at hm
    rw [carryAll_cons, hn]
    exact ih (fun m hmem => hm m (List.mem_cons_of_mem _ hmem))
      fun m hmem => h m (List.mem_cons_of_mem _ hmem)

end Notice

/-- A listing of one board, each card once, under keys that are text. -/
structure Listing.Proper (l : Listing) : Prop where
  stages : ∀ s ∈ l.stages, s.board = l.board
  active : ∀ s ∈ l.stages, s.key.isName = true
  cards : ∀ c ∈ Projection.cardsOf l.cards, c.board = l.board
  names : ∀ e ∈ l.cards, .text e.1.entryName = e.1
  filed : Projection.Filed l.cards

namespace Projection

variable {p : Projection}

/-! ## Notices -/

/-- Heed a notice; tells whether the columns changed. -/
def heed (n : Notice) (p : Projection) : Bool × Projection :=
  match n with
  | .moved card stage x => p.remoteMove card (.text stage) x
  | .folded stage fallback => p.fold (.text stage) (.text fallback)

/-- Whether a notice ends a live move of a card and leaves the card where it is shown. -/
def strands (card : String) (n : Notice) (p : Projection) : Bool :=
  match n with
  | .moved _ _ _ => false
  | .folded stage _ => (p.live? card).any (leaves (.text stage))

theorem sound_heed (h : p.Sound) (n : Notice) : (p.heed n).2.Sound := by
  cases n with
  | moved card stage x => exact sound_remoteMove h card _ x
  | folded stage fallback => exact sound_fold h _ _

theorem board_heed (n : Notice) (p : Projection) : (p.heed n).2.board = p.board := by
  cases n with
  | moved card stage x =>
    have hplace (q : Projection) : (q.place card (.text stage) (.real x)).board = q.board := by
      unfold place
      split
      · rfl
      · split
        · rfl
        · split <;> rfl
    have hhear : (p.hear card (.text stage) (some x)).board = p.board := by
      unfold hear
      split
      · rfl
      · split
        · rfl
        · split
          · exact (board_clearPending _ _).trans (board_updateMove _ _ _)
          · exact board_updateMove _ _ _
    exact (hplace _).trans hhear
  | folded stage fallback =>
    unfold heed fold
    dsimp only
    split <;> exact board_supersede _ _

/-- What a notice does to the agreed place of a card. -/
theorem agreed?_heed (h : p.Sound) (n : Notice) (card : String) :
    (p.heed n).2.agreed? card =
      (if p.strands card n then p.spot? card else p.agreed? card).map (n.carry card) := by
  cases n with
  | moved c stage x =>
    -- an event about a card ends no move that leaves the card where it is
    have ha := agreed?_remoteMove h c (.text stage) x card
    rw [heed, ha]
    by_cases hc : card = c
    · simp only [strands, Bool.false_eq_true, if_false, if_pos hc]
      congr 1
      funext z
      exact (if_pos hc).symm
    · simp only [strands, Bool.false_eq_true, if_false, if_neg hc]
      cases p.agreed? card with
      | none => rfl
      | some z => exact congrArg some (if_neg hc).symm
  | folded stage fallback => exact agreed?_fold h _ _ card

open Operation in
/-- An event is read as the notice it tells. -/
theorem applyEvent_notice (h : p.Sound) (n : Notice) :
    applyEvent n.toValue p = (.ok (p.heed n).1, (p.heed n).2) := by
  have hcalm := (sound_heed h n).tidy.calm
  cases n with
  | moved card stage x =>
    have hread : applyEvent (Notice.moved card stage x).toValue =
        hearMove card (.text stage) (.real x) := rfl
    rw [hread]
    simp only [heed] at hcalm ⊢
    simp only [hearMove, Value.toReal_real, Value.isName, Bool.not_true, Bool.false_and,
      Bool.false_eq_true, if_false, bind_apply, get_apply, set_apply, pure_apply, checkOrder,
      hcalm]
  | folded stage fallback =>
    have hread : applyEvent (Notice.folded stage fallback).toValue =
        hearFold (.text stage) (.text fallback) := rfl
    rw [hread]
    simp only [heed] at hcalm ⊢
    simp only [hearFold, Value.isName, Bool.not_true, Bool.and_false, Bool.false_eq_true, if_false,
      bind_apply, get_apply, set_apply, pure_apply, checkOrder, hcalm]

/-! ## Clients that make no moves -/

/-- A client that has made no move. -/
structure Still (p : Projection) : Prop where
  sound : p.Sound
  pending : p.pending = []

theorem Still.live? {p : Projection} (h : Still p) (card : String) : p.live? card = none := by
  refine live?_of_not_pending ?_
  rw [pendingMove, h.pending]
  rfl

theorem Still.agreed? {p : Projection} (h : Still p) (card : String) :
    p.agreed? card = p.spot? card := agreed?_of_not_live (h.live? card)

theorem Still.strands {p : Projection} (h : Still p) (card : String) (n : Notice) :
    p.strands card n = false := by
  cases n with
  | moved => rfl
  | folded stage fallback => rw [Projection.strands, h.live?]; rfl

/-- The board and the stages that a client shows are no matter of moves. -/
theorem Still.congr {p : Projection} (h : Still p) {board : Key} {stages : List Stage} :
    Still { p with board, stages } :=
  ⟨⟨h.sound.tidy.congr rfl rfl, h.sound.ledger.congr rfl rfl rfl⟩, h.pending⟩

theorem still_new (board : Key) : Still { board } := ⟨sound_new board, rfl⟩

/-- Heeding a notice makes no move. -/
theorem still_heed {p : Projection} (h : Still p) (n : Notice) : Still (p.heed n).2 := by
  refine ⟨sound_heed h.sound n, ?_⟩
  cases n with
  | moved card stage x =>
    -- there is no move to settle or to override
    have hnone : p.pendingMove card = none := by
      rw [pendingMove, h.pending]
      rfl
    have hhear : p.hear card (.text stage) (some x) = p := by
      rw [hear, hnone]
    rw [heed, remoteMove, hhear]
    exact (unrecorded_place card (.text stage) (.real x) p).pending.trans h.pending
  | folded stage fallback =>
    obtain ⟨q, hu, hq⟩ := fold_records (.text stage) (.text fallback) p
    rw [heed, hu.pending, pending_supersede, hq.pending, h.pending]

theorem still_refresh {p : Projection} (h : Still p) {cs : Entries Key (List Card)}
    (hcs : Filed cs) : Still (p.refresh cs) :=
  ⟨sound_refresh h.sound hcs, (pending_supersede _ p).trans h.pending⟩

/-- What a client that has made no move shows after a notice. -/
theorem Still.spot?_heed {p : Projection} (h : Still p) (n : Notice) (card : String) :
    (p.heed n).2.spot? card = (p.spot? card).map (n.carry card) := by
  rw [← (still_heed h n).agreed?, agreed?_heed h.sound, h.strands, ← h.agreed?]
  rfl

/-! ## Listings -/

/-- Many values are read as they were written, if each is. -/
theorem mapM_written {α β ε : Type} (read : β → Except ε α) (write : α → β) {xs : List α}
    (h : ∀ x ∈ xs, read (write x) = .ok x) : (xs.map write).mapM read = .ok xs := by
  induction xs with
  | nil => rfl
  | cons x xs ih =>
    rw [List.map_cons, List.mapM_cons, h x (by simp),
      ih fun y hy => h y (List.mem_cons_of_mem _ hy)]
    rfl

theorem given?_whole (n : Int) :
    (Value.whole n).given? = if n = 0 then none else some (.whole n) := by
  by_cases h : n = 0 <;> simp [Value.given?, Value.given, h]

theorem given?_object (es : List (String × Value)) :
    (Value.object es).given? = if es = [] then none else some (.object es) := by
  cases es <;> simp [Value.given?, Value.given]

/-- A whole number is read on as it was written; zero counts as none, and none as zero. -/
theorem readWhole_written {β : Type} (n : Int) (next : Int → Except Fault β) :
    (match (Value.whole n).given? with
      | some v => v.toWhole >>= next
      | none => pure 0 >>= next) = next n := by
  rw [given?_whole]
  by_cases h : n = 0
  · rw [if_pos h, h]
    rfl
  · rw [if_neg h]
    rfl

/-- Attributes are read on as they were written. -/
theorem readAttributes_written {β : Type} (es : Entries String Value)
    (next : Entries String Value → Except Fault β) :
    (match (Value.object es).given? with
      | some a => Card.attributesOf a >>= next
      | none => pure [] >>= next) = next es := by
  rw [given?_object]
  by_cases h : es = []
  · rw [if_pos h, h]
    rfl
  · rw [if_neg h]
    rfl

/-- A stage of a listing is read as it was written. -/
theorem ofValue_stage_summary {board : Key} {s : Stage} (h : s.board = board) :
    (withDefaults [("board_key", board)] s.summary >>= Stage.ofValue) = .ok s := by
  subst h
  exact readWhole_written s.position fun position => pure { s with position }

/-- A card of a listing is read as it was written. -/
theorem ofValue_card_summary {board : Key} {c : Card} (h : c.board = board) (k : String) :
    (withDefaults [("board_key", board), ("stage_key", k)] c.summary >>= Card.ofValue) =
      .ok c := by
  subst h
  -- the count of unread messages comes first, then the attributes
  exact (readWhole_written c.unread _).trans
    (readAttributes_written c.attributes fun attributes => pure { c with attributes })

/-- A column of a listing is read as it was written. -/
theorem readColumn_written {board : Key} {e : Key × List Card} (hk : .text e.1.entryName = e.1)
    (hc : ∀ c ∈ e.2, c.board = board) :
    readColumn board (e.1.entryName, .list (e.2.map Card.summary)) = .ok e := by
  have hcards := mapM_written (fun v => do
      Card.ofValue (← withDefaults [("board_key", board), ("stage_key", .text e.1.entryName)] v))
    Card.summary fun c hmem => ofValue_card_summary (hc c hmem) e.1.entryName
  unfold readColumn
  simp only [Value.items, Operation.ok_bind, hcards]
  exact congrArg Except.ok (Prod.ext hk rfl)

open Operation in
/-- A listing is read as it was made. -/
theorem applyRefresh_listing {l : Listing} (h : l.Proper) (p : Projection) :
    applyRefresh l.toPayload p =
      (.ok (), refresh l.cards { p with board := l.board, stages := l.stages }) := by
  have hstages := mapM_written (fun v => do
      Stage.ofValue (← withDefaults [("board_key", l.board)] v)) Stage.summary
    fun s hs => ofValue_stage_summary (h.stages s hs)
  have hcolumns := mapM_written (readColumn l.board)
    (fun e : Key × List Card => (e.1.entryName, Value.list (e.2.map Card.summary)))
    fun e he => readColumn_written (h.names e he) fun c hc =>
      h.cards c (List.mem_flatMap.2 ⟨e, he, hc⟩)
  have hnames : (l.stages.any fun s => s.active && !s.key.isName) = false := by
    simp only [List.any_eq_false, Bool.and_eq_true, Bool.not_eq_true', not_and, Bool.not_eq_false]
    exact fun s hs _ => h.active s hs
  -- the entries of the payload
  let es : Entries String Value := [("board_key", l.board),
    ("stages", .list (l.stages.map Stage.summary)), ("cards_by_stage", l.cardsValue)]
  have hrecord : l.toPayload.record = .ok es := rfl
  have hboard (k : Key) : es.getD "board_key" k = l.board := rfl
  have hlist (v : Value) : es.getD "stages" v = .list (l.stages.map Stage.summary) := rfl
  have hby (v : Value) : es.getD "cards_by_stage" v = l.cardsValue := rfl
  have hgiven : l.cardsValue.given? = if l.cards = [] then none else some l.cardsValue := by
    rw [Listing.cardsValue, given?_object]
    simp only [List.map_eq_nil_iff]
  have hcards : l.cardsValue.record = .ok (l.cards.map fun e =>
      (e.1.entryName, Value.list (e.2.map Card.summary))) := rfl
  unfold applyRefresh
  simp only [hrecord, Failure.ofReading, bind_apply, lift_apply, modify_apply, get_apply, hboard,
    hlist, Value.items, ok_bind, hstages, hnames, Bool.false_eq_true, if_false, hby, hgiven]
  -- a board without columns is read as one that has none
  by_cases hnil : l.cards = []
  · simp only [hnil, if_true]
    rfl
  · simp only [hnil, if_false, hcards, ok_bind, hcolumns]

end Projection

end Kanban
