import Kanban.Proofs.Projection.Shape
import Kanban.Proofs.Projection.Wire
import Mathlib.Data.List.Induction

/-!
# Kanban.Proofs.Projection.Twin — what failed moves leave behind

A client makes local moves, all of which fail, and hears of the board in between: full reads and
events in any order. Its twin hears the same and makes no move. When a card has no unsettled move,
does the client show it where the twin does?

It does, but for two things. A stage that is folded ends the live moves that come from it or go to
it, and they are not undone when they fail: their cards stay where the moves had put them. And a live
move whose failure has no words is not undone either. Such a card is left behind until the server tells
its place again.

* `Act`, `step`, `run` — the client; `twin` is the run of what it hears.
* `leftBehind` — where a card was left behind, as later events carry it.
* `agreed?_run` — the agreed place of a card is where it was left behind, or where the twin shows it.
* `traceless_iff` — a settled card is shown as the twin shows it iff it was not left elsewhere.
* `left_behind_by_fold` — a card that is left elsewhere.
-/

namespace Kanban

namespace Projection.Twin

/-- What happens to a client none of whose moves succeeds. -/
inductive Act where
  /-- A card is moved here and now. -/
  | begin (now : Float) (card target : String) (d : Directive)
  /-- A move has failed. -/
  | rollback (n : Nat) (error : Option Failure)
  /-- The board was read. -/
  | refresh (l : Listing)
  /-- An event came. -/
  | hear (n : Notice)

/-- Whether an act tells what the server says. -/
def Act.isHeard : Act → Bool
  | .refresh _ | .hear _ => true
  | _ => false

/-- A client and its source of positions. -/
structure Store where
  view : Projection
  allocator : Allocator := {}

/-- The client after an act. -/
def step (s : Store) : Act → Store
  | .begin now card target d =>
    let (_, view, allocator) := s.view.begin now card (.text target) d s.allocator
    { view, allocator }
  | .rollback n error => { s with view := (settleFailed n error s.view).2 }
  | .refresh l => { s with view := (applyRefresh l.toPayload s.view).2 }
  | .hear n => { s with view := (applyEvent n.toValue s.view).2 }

/-- A client that shows nothing yet. -/
def start (board : Key) : Store := { view := { board } }

/-- The client after some acts. -/
def run (board : Key) (acts : List Act) : Store := acts.foldl step (start board)

/-- The twin: it hears the same and makes no move. -/
def twin (board : Key) (acts : List Act) : Store := run board (acts.filter Act.isHeard)

/-- Whether every board that is read is a listing of one board. -/
def WellRead (acts : List Act) : Prop := ∀ l, .refresh l ∈ acts → l.Proper

/-- All moves of a card have come to an end. -/
def Settled (card : String) (p : Projection) : Prop :=
  ∀ e ∈ p.moves, e.2.card = card → e.2.state ≠ .optimistic

instance (card : String) (p : Projection) : Decidable (Settled card p) :=
  inferInstanceAs (Decidable (∀ e ∈ p.moves, e.2.card = card → e.2.state ≠ .optimistic))

/-- Where a card is left behind after an act: a failure that has no words and a stage that is folded
leave it where it is shown if they end a live move of the card, whatever else is heard carries it, and
it is left behind no more once its place or the whole board is told. -/
def leave (card : String) (s : Store) (z : Option Spot) : Act → Option Spot
  | .begin _ _ _ _ => z
  | .rollback n error =>
    if (error.bind Failure.fault?).isSome ∧ (s.view.live? card).any (·.id = n) then s.view.spot? card
    else z
  | .refresh _ => none
  | .hear n =>
    if n.tells card then none
    else (if s.view.strands card n then s.view.spot? card else z).map (n.carry card)

/-- A client, and where a card was left behind, after an act. -/
def watch (card : String) (w : Store × Option Spot) (a : Act) : Store × Option Spot :=
  (step w.1 a, leave card w.1 w.2 a)

/-- Where a card was left behind. -/
def leftBehind (board : Key) (card : String) (acts : List Act) : Option Spot :=
  (acts.foldl (watch card) (start board, none)).2

/-! ## The invariant -/

/-- How a client, a twin and the place where a card was left behind belong together. -/
structure Inv (card : String) (s t : Store) (z : Option Spot) : Prop where
  sound : s.view.Sound
  still : Still t.view
  agreed : s.view.agreed? card = z.or (t.view.spot? card)
  shown : z.isSome → (t.view.spot? card).isSome

theorem init_inv (board : Key) (card : String) : Inv card (start board) (start board) none where
  sound := sound_new board
  still := still_new board
  agreed := by rfl
  shown := by simp

/-- The client and its twin show the same cards. -/
theorem Inv.isSome {card : String} {s t : Store} {z : Option Spot} (h : Inv card s t z) :
    (s.view.spot? card).isSome = (t.view.spot? card).isSome := by
  rw [← isSome_agreed?, h.agreed]
  cases z with
  | none => rfl
  | some z => exact (h.shown rfl).symm

/-- Both read the board: they show the listing, and no card is left behind. -/
theorem Inv.refresh {card : String} {s t : Store} {z : Option Spot} (h : Inv card s t z) {l : Listing}
    (hl : l.Proper) : Inv card (step s (.refresh l)) (step t (.refresh l)) none := by
  have hread (p : Projection) := congrArg Prod.snd (applyRefresh_listing hl p)
  have hs : Sound { s.view with board := l.board, stages := l.stages } :=
    ⟨h.sound.tidy.congr rfl rfl, h.sound.ledger.congr rfl rfl rfl⟩
  have ht : Still { t.view with board := l.board, stages := l.stages } :=
    ⟨⟨h.still.sound.tidy.congr rfl rfl, h.still.sound.ledger.congr rfl rfl rfl⟩, h.still.pending⟩
  refine ⟨?_, ?_, ?_, ?_⟩
  · simp only [step, hread]
    exact sound_refresh hs hl.filed
  · simp only [step, hread]
    exact still_refresh ht hl.filed
  · simp only [step, hread, Option.none_or]
    rw [agreed?_refresh hs hl.filed, spot?_refresh ht.sound hl.filed]
  · simp

/-- Where an event leaves the agreed place of a card, if the twin shows the card as the client does
but for one that was left behind. -/
theorem Inv.agreed_heed {card : String} {s t : Store} {z : Option Spot} (h : Inv card s t z)
    (n : Notice) :
    (s.view.heed n).2.agreed? card =
      (leave card s z (.hear n)).or ((t.view.spot? card).map (n.carry card)) := by
  rw [agreed?_heed h.sound, leave]
  by_cases hn : n.tells card
  · -- the event tells where the card is
    rw [if_pos hn, Option.none_or]
    refine Notice.map_carry_of_tells hn ?_
    rw [← h.isSome]
    split
    · rfl
    · exact isSome_agreed? card s.view
  · rw [if_neg hn]
    by_cases hst : s.view.strands card n
    · -- the event ends a live move of the card
      rw [if_pos hst, if_pos hst]
      have hsome := h.isSome
      cases hs : s.view.spot? card with
      | none =>
        rw [hs] at hsome
        have hnone : t.view.spot? card = none :=
          Option.isNone_iff_eq_none.1 (by simpa using hsome.symm)
        rw [hnone]
        rfl
      | some y => rfl
    · rw [if_neg hst, if_neg hst, h.agreed]
      cases z <;> rfl

/-- A card that an event leaves behind is shown, by the client and so by its twin. -/
theorem Inv.shown_leave {card : String} {s t : Store} {z : Option Spot} (h : Inv card s t z)
    (n : Notice) (hz : (leave card s z (.hear n)).isSome) : (t.view.spot? card).isSome := by
  rw [leave] at hz
  by_cases hn : n.tells card
  · simp [hn] at hz
  · rw [if_neg hn, Option.isSome_map] at hz
    split at hz
    · rw [← h.isSome]
      exact hz
    · exact h.shown hz

/-- Both hear an event. -/
theorem Inv.hear {card : String} {s t : Store} {z : Option Spot} (h : Inv card s t z) (n : Notice) :
    Inv card (step s (.hear n)) (step t (.hear n)) (leave card s z (.hear n)) := by
  have hsn := congrArg Prod.snd (applyEvent_notice h.sound n)
  have htn := congrArg Prod.snd (applyEvent_notice h.still.sound n)
  have hspot := h.still.spot?_heed n card
  refine ⟨?_, ?_, ?_, fun hz => ?_⟩
  · simp only [step, hsn]
    exact sound_heed h.sound n
  · simp only [step, htn]
    exact still_heed h.still n
  · simp only [step, hsn, htn, hspot]
    exact h.agreed_heed n
  · simp only [step, htn, hspot, Option.isSome_map]
    exact h.shown_leave n hz

/-- A move fails, of which the twin knows nothing. -/
theorem Inv.rollback {card : String} {s t : Store} {z : Option Spot} (h : Inv card s t z) (n : Nat)
    (error : Option Failure) :
    Inv card (step s (.rollback n error)) t (leave card s z (.rollback n error)) := by
  obtain ⟨reason, -, hf, hq⟩ | ⟨fault, hf, hq⟩ := act_rollback n error s.view
  · -- with words the agreed place does not change
    have hsound := sound_rollback h.sound n reason
    have hview : (step s (.rollback n error)).view = s.view.rollback n reason :=
      hq.trans (calmed_of_calm hsound.tidy.calm)
    rw [leave, hf, if_neg (by simp)]
    refine ⟨hview ▸ hsound, h.still, ?_, h.shown⟩
    rw [hview, agreed?_rollback h.sound, h.agreed]
  · -- without words a live move ends where its card is shown
    have hcloses := closes_giveUp h.sound.ledger n error
    have hview : (step s (.rollback n error)).view = s.view.giveUp n error := hq
    simp only [leave, hf, Option.isSome_some, true_and]
    refine ⟨hview ▸ hcloses.sound h.sound, h.still, ?_, fun hz => ?_⟩
    · rw [hview, hcloses.agreed? h.sound.ledger]
      split
      · have hsome := h.isSome
        cases hs : s.view.spot? card with
        | none =>
          rw [hs] at hsome
          have hnone : t.view.spot? card = none :=
            Option.isNone_iff_eq_none.1 (by simpa using hsome.symm)
          rw [hnone]
          rfl
        | some y => rfl
      · exact h.agreed
    · split at hz
      · rw [← h.isSome]
        exact hz
      · exact h.shown hz

theorem step_inv {card : String} {s t : Store} {z : Option Spot} (h : Inv card s t z) (a : Act)
    (ha : ∀ l, a = .refresh l → l.Proper) :
    Inv card (step s a) (if a.isHeard then step t a else t) (leave card s z a) := by
  cases a with
  | begin now c target d =>
    -- the agreed place does not change, and the twin does nothing
    refine ⟨sound_begin h.sound now c rfl d s.allocator, h.still, ?_, h.shown⟩
    exact (agreed?_begin h.sound now c rfl d s.allocator card).trans h.agreed
  | rollback n error => exact h.rollback n error
  | refresh l => exact h.refresh (ha l rfl)
  | hear n => exact h.hear n

theorem WellRead.of_append {acts : List Act} {a : Act} (h : WellRead (acts ++ [a])) :
    WellRead acts := fun l hl => h l (List.mem_append_left _ hl)

/-- The invariant holds after every run. -/
theorem run_inv (board : Key) (card : String) {acts : List Act} (h : WellRead acts) :
    Inv card (run board acts) (twin board acts) (leftBehind board card acts) := by
  induction acts using List.reverseRecOn with
  | nil => exact init_inv board card
  | append_singleton acts a ih =>
    -- the twin takes the step only if it hears of it
    have hstep := step_inv (ih h.of_append) a fun l hl => h l (by simp [hl])
    have hrun : run board (acts ++ [a]) = step (run board acts) a := by
      simp [run]
    have htwin : twin board (acts ++ [a]) =
        if a.isHeard then step (twin board acts) a else twin board acts := by
      unfold twin run
      rw [List.filter_append, List.foldl_append]
      cases ha : a.isHeard <;> simp [ha]
    have hleft : leftBehind board card (acts ++ [a]) =
        leave card (run board acts) (leftBehind board card acts) a := by
      have hstore : acts.foldl step (start board, (none : Option Spot)).1 =
          (acts.foldl (watch card) (start board, none)).1 :=
        List.foldl_hom Prod.fst fun _ _ => rfl
      rw [leftBehind, List.foldl_append, run, hstore]
      rfl
    rw [hrun, htwin, hleft]
    exact hstep

/-! ## Settled cards -/

/-- The place that a client has agreed with the server is the twin's, unless the card was left
behind. -/
theorem agreed?_run (board : Key) (card : String) {acts : List Act} (h : WellRead acts) :
    (run board acts).view.agreed? card =
      (leftBehind board card acts).or ((twin board acts).view.spot? card) :=
  (run_inv board card h).agreed

/-- A card without an unsettled move is shown at its agreed place. -/
theorem Settled.agreed? {p : Projection} (hp : p.Ledger) {card : String} (hs : Settled card p) :
    p.agreed? card = p.spot? card := by
  refine agreed?_of_not_live (live?_of_not_pending ?_)
  cases hpm : p.pendingMove card with
  | none => rfl
  | some m =>
    obtain ⟨hm, hcard, ho, -⟩ := hp.of_pendingMove hpm
    exact absurd ho (hs _ (Entries.mem_of_get? hm) hcard)

/-- When all moves of a card have come to an end, the card is where the twin shows it, unless a
folded stage or a failure without words left it elsewhere and its place was not told since. -/
theorem traceless_iff (board : Key) (card : String) {acts : List Act} (h : WellRead acts)
    (hs : Settled card (run board acts).view) :
    (run board acts).view.spot? card = (twin board acts).view.spot? card ↔
      ∀ z, leftBehind board card acts = some z → (twin board acts).view.spot? card = some z := by
  have hinv := run_inv board card h
  have hspot := agreed?_run board card h
  rw [hs.agreed? hinv.sound.ledger] at hspot
  rw [hspot]
  cases leftBehind board card acts with
  | none => simp
  | some z => simp [eq_comm]

/-! ## A card that is left behind -/

/-- A stage by its key. -/
def stageNamed (key : String) : Stage := { id := key, board := "sales", key, name := key }

/-- Three stages, and a card in the first of them. -/
def threeStages : Listing where
  board := "sales"
  stages := [stageNamed "new", stageNamed "open", stageNamed "done"]
  cards := [("new", [{ id := "1", board := "sales", stage := "new", position := 1.0 }]),
    ("open", []), ("done", [])]

/-- The card is on its way to a stage when that stage is folded, and then the move fails. -/
def foldedUnderWay : List Act :=
  [.refresh threeStages, .begin 0.0 "1" "open" { absolute := some 5.0 },
    .hear (.folded "open" "done"), .rollback 1 none]

theorem wellRead_foldedUnderWay : WellRead foldedUnderWay := by
  intro l hl
  obtain rfl : l = threeStages := by simpa [foldedUnderWay] using hl
  exact ⟨by decide, by decide, by decide, by decide, by decide, by decide, by decide⟩

/-- A failed move that leaves a trace: the card is where the fold took it from its way, and not where
it came from. -/
theorem left_behind_by_fold :
    Settled "1" (run "sales" foldedUnderWay).view ∧
      (run "sales" foldedUnderWay).view.spot? "1" = some (.text "done", .real 5.0) ∧
      (twin "sales" foldedUnderWay).view.spot? "1" = some (.text "new", .real 1.0) := by
  decide

/-- The criterion on that run. -/
theorem traceless_iff_foldedUnderWay :
    (run "sales" foldedUnderWay).view.spot? "1" = (twin "sales" foldedUnderWay).view.spot? "1" ↔
      ∀ z, leftBehind "sales" "1" foldedUnderWay = some z →
        (twin "sales" foldedUnderWay).view.spot? "1" = some z :=
  traceless_iff "sales" "1" wellRead_foldedUnderWay (by decide)

end Projection.Twin

end Kanban
