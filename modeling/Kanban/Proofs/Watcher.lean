import Kanban.Proofs.Server.Queue
import Kanban.Proofs.Server.Reading
import Mathlib.Data.List.Induction
import Mathlib.Data.List.Infix

/-!
# Kanban.Proofs.Watcher — a client that only watches

A client subscribes to a board, reads it, and from then on applies the events that come; when the
subscription has dropped events, the client reads the board again. Meanwhile anyone moves cards and
deactivates stages, between any two steps of the client. What the client has read may be older or
newer than the events that are still on their way.

Whenever the client has nothing to do, it shows every card of the board where the server has it:
an event that is older than what was read tells of a place that a later event or the reading itself
has overridden, and events are only ever dropped from a buffer that is full, so the client will find
out.

* `Act`, `step`, `run` — the server and the client, in any order.
* `Inv` — what was read or is shown becomes the server's board, unless events were dropped, and then
  there is an event left that makes the client read again.
* `step_inv`, `run_inv` — every run keeps this.
* `converges` — a client with nothing to do shows the server's board.
-/

namespace Kanban

open Projection (Spot Still cardsOf)
open Server (Keeps Sole Housed Covers Listens Holds Fresh Replays Told Step kept)

namespace Watcher

/-! ## The system -/

/-- What the client is about to do. -/
inductive Phase where
  /-- The board is to be read. -/
  | reading
  /-- What was read is to be shown. -/
  | showing (payload : Value)
  /-- The client waits for an event. -/
  | idle
  /-- An event was taken and is to be applied. -/
  | holding (e : Value)
  /-- An event was applied; it is to be seen whether others were dropped. -/
  | checking
  /-- The subscription is over, or something failed. -/
  | stopped

/-- A server and a client that watches a board. -/
structure World where
  server : Server
  view : Projection
  phase : Phase

/-- What happens next. -/
inductive Act where
  /-- Someone's transition is planned. -/
  | plan (now : Float) (account card : String) (target : Key) (d : Directive) (board : Option Key)
  /-- A planned transition is stored and published, or it fails. -/
  | commit (target : Key) (slip : Except Failure Unit) (p : Plan)
  /-- Someone deactivates a stage. -/
  | deactivate (account id : String)
  /-- The client takes the next event. -/
  | take
  /-- The client applies the event it took. -/
  | apply
  /-- The client looks whether events were dropped. -/
  | check
  /-- The client reads the board. -/
  | fetch
  /-- The client shows what it read. -/
  | display

variable (v : Service) (account : String) (n : Nat)

/-- The world after an act. An act that is not due changes nothing. -/
def step (w : World) : Act → World
  | .plan now a card target d board =>
    { w with server := (Transition.plan now a card target d board w.server).2 }
  | .commit target slip p =>
    { w with server := (Transition.commit true target slip p w.server).2 }
  | .deactivate a id => { w with server := (Deactivation.run true a id w.server).2 }
  | .take =>
    match w.phase with
    | .idle =>
      match w.server.channel.read n false with
      | (.event e, channel) =>
        { w with server := { w.server with channel }, phase := .holding e }
      | (.pending, channel) => { w with server := { w.server with channel } }
      | (.over, channel) => { w with server := { w.server with channel }, phase := .stopped }
    | _ => w
  | .apply =>
    match w.phase with
    | .holding e =>
      match Projection.applyEvent e w.view with
      | (.ok _, view) => { w with view, phase := .checking }
      | (.error _, view) => { w with view, phase := .stopped }
    | _ => w
  | .check =>
    match w.phase with
    | .checking =>
      if (w.server.channel.subscription? n).any (·.lagged) then
        { w with
          server := { w.server with channel := w.server.channel.update n ({ · with lagged := false }) }
          phase := .reading }
      else { w with phase := .idle }
    | _ => w
  | .fetch =>
    match w.phase with
    | .reading =>
      match Client.readFrom v account w.view.board w.server with
      | (.ok payload, server) => { w with server, phase := .showing payload }
      | (.error _, server) => { w with server, phase := .stopped }
    | _ => w
  | .display =>
    match w.phase with
    | .showing payload =>
      match Projection.applyRefresh payload w.view with
      | (.ok _, view) => { w with view, phase := .idle }
      | (.error _, view) => { w with view, phase := .stopped }
    | _ => w

/-- A client that has subscribed to a board and is to read it for the first time. -/
def start (account : String) (board : Key) (s : Server) : World where
  server := { s with channel := (s.channel.subscribe (Channel.keyOf account board)).2 }
  view := { board }
  phase := .reading

/-- The number of its subscription. -/
def number (account : String) (board : Key) (s : Server) : Nat :=
  (s.channel.subscribe (Channel.keyOf account board)).1

/-- The world after some acts. -/
def run (v : Service) (account : String) (board : Key) (s : Server) (acts : List Act) : World :=
  acts.foldl (step v account (number account board s)) (start account board s)

/-- Whether the client has nothing to do: it waits, and no event is on its way. -/
def AtRest (n : Nat) (w : World) : Prop :=
  w.phase = .idle ∧ (w.server.channel.subscription? n).any (·.buffer.isEmpty)

/-! ## The invariant -/

variable {v account n} {board : Key} {w : World}

/-- The places of the cards of a listing. -/
def listed (l : Listing) (id : String) : Option Spot :=
  ((cardsOf l.cards).find? (·.id = id)).map Spot.ofCard

/-- What is true of what was read, taken or shown, with the notices that are on their way and the
mark of the subscription. -/
def Ready (account : String) (board : Key) (w : World) (ns : List Notice) (lagged : Bool) : Prop :=
  match w.phase with
  | .reading => lagged = true → ns ≠ []
  | .showing payload => (lagged = true → ns ≠ []) ∧
    ∃ l : Listing, payload = l.toPayload ∧ l.Proper ∧ l.board = board ∧
      (lagged = false → w.server.Fresh account board (listed l) ns)
  | .idle => (lagged = true → ns ≠ []) ∧
    (lagged = false → w.server.Fresh account board (fun id => w.view.spot? id) ns)
  | .holding e => ∃ m : Notice, e = m.toValue ∧
    (lagged = false → w.server.Fresh account board (fun id => w.view.spot? id) (m :: ns))
  | .checking => lagged = false → w.server.Fresh account board (fun id => w.view.spot? id) ns
  | .stopped => False

/-- What the subscription holds, and what the client is to make of it. -/
structure Queued (account : String) (board : Key) (n : Nat) (w : World) (ns : List Notice)
    (sub : Subscription) : Prop where
  found : w.server.channel.subscription? n = some sub
  listens : Listens account board sub
  holds : Holds ns sub
  replays : w.server.Replays account board ns
  ready : Ready account board w ns sub.lagged

/-- The invariant of a watched board. -/
structure Inv (account : String) (board : Key) (n : Nat) (w : World) : Prop where
  keeps : w.server.Keeps account board
  sole : w.server.Sole account board
  housed : w.server.Housed account board
  still : Still w.view
  home : w.view.board = board
  queued : ∃ ns sub, Queued account board n w ns sub

theorem init_inv {s : Server} (hk : s.Keeps account board) (hs : s.Sole account board)
    (hh : s.Housed account board) :
    Inv account board (number account board s) (start account board s) where
  keeps := ⟨hk.memory, hk.filed, hk.named, Channel.exact_subscribe hk.exact _⟩
  sole := hs
  housed := hh
  still := Projection.still_new board
  home := rfl
  queued := ⟨[], _, Channel.subscription?_subscribe_self _ _, ⟨rfl, rfl, rfl⟩, rfl,
    Server.replays_nil, by simp [Ready, start]⟩

/-! ## Steps of the server -/

/-- What the client is to make of the notices on their way stays so when the server tells more. -/
theorem Ready.told {t : Server} {note : Option Notice} {ns : List Notice} {sub : Subscription}
    (h : Ready account board w ns sub.lagged) (ht : Told account board note w.server t) :
    Ready account board { w with server := t } (kept note sub ns ++ note.toList)
      (sub.lagged || Server.drops note sub) := by
  -- a full buffer drops an event only to take another one
  have hne : (sub.lagged = true → ns ≠ []) →
      (sub.lagged || Server.drops note sub) = true → kept note sub ns ++ note.toList ≠ [] := by
    intro hold hl
    cases note with
    | none => simpa [Server.drops, kept] using hold (by simpa [Server.drops] using hl)
    | some m => simp
  -- without the mark nothing was dropped, and what was fresh is so with the new notice
  have hfresh (ms : List Notice) {places : String → Option Spot}
      (hold : sub.lagged = false → w.server.Fresh account board places (ms ++ ns)) :
      (sub.lagged || Server.drops note sub) = false →
        t.Fresh account board places (ms ++ (kept note sub ns ++ note.toList)) := by
    intro hl
    obtain ⟨hl, hd⟩ := Bool.or_eq_false_iff.1 hl
    have hkept : kept note sub ns = ns := by
      rw [kept, if_neg (by simpa [Server.drops] using hd)]
    rw [hkept, ← List.append_assoc]
    exact (hold hl).told ht
  unfold Ready at h ⊢
  cases hp : w.phase with
  | reading =>
    rw [hp] at h
    exact hne h
  | showing payload =>
    rw [hp] at h
    obtain ⟨hold, l, hl, hproper, hb, hf⟩ := h
    exact ⟨hne hold, l, hl, hproper, hb, hfresh [] hf⟩
  | idle =>
    rw [hp] at h
    exact ⟨hne h.1, hfresh [] h.2⟩
  | holding e =>
    rw [hp] at h
    obtain ⟨m, hm, hf⟩ := h
    exact ⟨m, hm, hfresh [m] hf⟩
  | checking =>
    rw [hp] at h
    exact hfresh [] h
  | stopped =>
    rw [hp] at h
    exact h

/-- A step of the server, whatever it tells, keeps the invariant. -/
theorem Inv.serve {t : Server} {note : Option Notice} (h : Inv account board n w)
    (ht : Step account board note w.server t) : Inv account board n { w with server := t } := by
  obtain ⟨ns, sub, hq⟩ := h.queued
  obtain ⟨hholds, hlag⟩ := Server.holds_tell hq.holds note
  refine ⟨ht.keeps, ht.sole h.sole, ht.housed h.housed, h.still, h.home,
    kept note sub ns ++ note.toList, Server.tell note sub, ?_⟩
  exact {
    found := ht.told.heard n sub hq.found hq.listens
    listens := Server.listens_tell hq.listens
    holds := hholds
    replays := hq.replays.told ht.told sub
    ready := hlag ▸ hq.ready.told ht.told }

/-- A card that is published under the key of the board is one of the board, and is shown. -/
theorem Inv.ours (h : Inv account board n w) {p : Plan} {c : Card}
    (hc : (w.server.records p.account).card? p.card = some c)
    (hk : Channel.keyOf p.account c.board = Channel.keyOf account board) :
    p.account = account ∧ c.board = board ∧ (w.server.shown? account board p.card).isSome := by
  obtain ⟨ha, hb⟩ := h.sole p.account c.board
    (.inl ⟨c, Entries.mem_values_of_get? hc, rfl⟩) hk
  rw [ha] at hc
  refine ⟨ha, hb, ?_⟩
  rw [Server.shown?, h.housed.shown? hc hb]
  rfl

/-! ## Steps of the client -/

/-- The client took the oldest of what the subscription holds, and goes on. -/
theorem Inv.taking (h : Inv account board n w) {ns : List Notice} {sub : Subscription}
    (hq : Queued account board n w ns sub) (phase : Phase)
    (hr : Ready account board { w with phase } ns.tail sub.lagged) :
    Inv account board n
      { w with server := { w.server with channel := (w.server.channel.take n).2 }, phase } where
  keeps := h.keeps.withChannel (Channel.exact_take h.keeps.exact n)
  sole := h.sole
  housed := h.housed
  still := h.still
  home := h.home
  queued := ⟨ns.tail, Server.taken sub, {
    found := Server.subscription?_taken hq.found
    listens := Server.listens_taken hq.listens
    holds := Server.holds_taken hq.holds
    replays := ⟨hq.replays.tail.tells, hq.replays.tail.folds⟩
    ready := hr }⟩

/-- The client waits for an event, and takes it if there is one. -/
theorem inv_take (v : Service) (h : Inv account board n w) :
    Inv account board n (step v account n w .take) := by
  obtain ⟨ns, sub, hq⟩ := h.queued
  have hready := hq.ready
  unfold Ready at hready
  unfold step
  cases hp : w.phase with
  | idle =>
    rw [hp] at hready
    have hread := Server.read_held hq.found hq.listens hq.holds
    cases ns with
    | nil =>
      simp only [hread]
      have hcalm : Ready account board { w with phase := .idle } [] sub.lagged := hready
      exact hp ▸ h.taking hq .idle hcalm
    | cons m ns =>
      simp only [hread]
      exact h.taking hq (.holding m.toValue) ⟨m, rfl, hready.2⟩
  | reading => exact h
  | showing => exact h
  | holding => exact h
  | checking => exact h
  | stopped => exact h

/-- The client applies the event it took: what it shows is one notice nearer to the server. -/
theorem inv_apply (v : Service) (h : Inv account board n w) :
    Inv account board n (step v account n w .apply) := by
  obtain ⟨ns, sub, hq⟩ := h.queued
  have hready := hq.ready
  unfold Ready at hready
  unfold step
  cases hp : w.phase with
  | holding e =>
    rw [hp] at hready
    obtain ⟨m, rfl, hf⟩ := hready
    simp only [Projection.applyEvent_notice h.still.sound m]
    refine {
      keeps := h.keeps, sole := h.sole, housed := h.housed
      still := Projection.still_heed h.still m
      home := (Projection.board_heed m w.view).trans h.home
      queued := ⟨ns, sub, hq.found, hq.listens, hq.holds, hq.replays, fun hl id => ?_⟩ }
    have hspot := h.still.spot?_heed m id
    rw [← hf hl id]
    dsimp only
    rw [hspot, Option.map_map]
    rfl
  | reading => exact h
  | showing => exact h
  | idle => exact h
  | checking => exact h
  | stopped => exact h

/-- The client clears the mark and reads the board again if events were dropped, and waits if
none were. -/
theorem inv_check (v : Service) (h : Inv account board n w) :
    Inv account board n (step v account n w .check) := by
  obtain ⟨ns, sub, hq⟩ := h.queued
  have hready := hq.ready
  unfold Ready at hready
  unfold step
  cases hp : w.phase with
  | checking =>
    rw [hp] at hready
    simp only [hq.found, Option.any_some]
    cases hl : sub.lagged with
    | true =>
      rw [if_pos rfl]
      -- the mark is cleared, and nothing is claimed of the board until it is read
      have hexact : (w.server.channel.update n ({ · with lagged := false })).Exact :=
        Channel.exact_update h.keeps.exact n (fun _ => rfl) fun _ => rfl
      have hfound : (w.server.channel.update n ({ · with lagged := false })).subscription? n =
          some { sub with lagged := false } := by
        rw [Channel.subscription?_update, if_pos rfl, hq.found]
        rfl
      exact {
        keeps := h.keeps.withChannel hexact
        sole := h.sole
        housed := h.housed
        still := h.still
        home := h.home
        queued := ⟨ns, _, hfound, ⟨hq.listens.key, hq.listens.closed, hq.listens.broken⟩,
          hq.holds, ⟨hq.replays.tells, hq.replays.folds⟩, by simp [Ready]⟩ }
    | false =>
      rw [if_neg Bool.false_ne_true]
      refine {
        keeps := h.keeps, sole := h.sole, housed := h.housed, still := h.still, home := h.home
        queued := ⟨ns, sub, hq.found, hq.listens, hq.holds, hq.replays, ?_, hready⟩ }
      rw [hl]
      simp
  | reading => exact h
  | showing => exact h
  | holding => exact h
  | idle => exact h
  | stopped => exact h

/-- The client reads the board: the places it reads are the server's, and so they stay fresh
whatever older notices are still on their way. -/
theorem inv_fetch {v : Service} (h : Inv account board n w)
    (hauth : v.authorize account board = true) (hboard : v.boardOf board = board)
    (hcov : w.server.Covers v account board) :
    Inv account board n (step v account n w .fetch) := by
  cases hp : w.phase with
  | reading =>
    obtain ⟨l, t, hread, hproper, hb, hspots, hstep, -⟩ :=
      Server.readFrom_listing h.keeps hauth hboard hcov
    have hw : step v account n w .fetch =
        { { w with server := t } with phase := .showing l.toPayload } := by
      simp only [step, hp, h.home, hread]
    have hinv := h.serve hstep
    obtain ⟨ns, sub, hq⟩ := hinv.queued
    have hready := hq.ready
    unfold Ready at hready
    rw [hp] at hready
    -- reading moves no card
    have hsame (id : String) : t.shown? account board id = w.server.shown? account board id := by
      rw [hstep.told.shown, Option.toList_none, Server.map_carryAll_nil]
    rw [hw]
    exact {
      keeps := hinv.keeps
      sole := hinv.sole
      housed := hinv.housed
      still := hinv.still
      home := hinv.home
      queued := ⟨ns, sub, hq.found, hq.listens, hq.holds, hq.replays, hready, l, rfl, hproper, hb,
        fun _ => hq.replays.fresh fun id => (hspots id).trans (hsame id).symm⟩ }
  | showing => simpa only [step, hp] using h
  | holding => simpa only [step, hp] using h
  | idle => simpa only [step, hp] using h
  | checking => simpa only [step, hp] using h
  | stopped => simpa only [step, hp] using h

/-- The client shows what it read. -/
theorem inv_display (v : Service) (h : Inv account board n w) :
    Inv account board n (step v account n w .display) := by
  obtain ⟨ns, sub, hq⟩ := h.queued
  have hready := hq.ready
  unfold Ready at hready
  unfold step
  cases hp : w.phase with
  | showing payload =>
    rw [hp] at hready
    obtain ⟨hl, l, rfl, hproper, hb, hf⟩ := hready
    simp only [Projection.applyRefresh_listing hproper w.view]
    -- the listing replaces what was shown
    have hstill : Still { w.view with board := l.board, stages := l.stages } := h.still.congr
    refine {
      keeps := h.keeps, sole := h.sole, housed := h.housed
      still := Projection.still_refresh hstill hproper.filed
      home := (Projection.board_supersede _ _).trans hb
      queued := ⟨ns, sub, hq.found, hq.listens, hq.holds, hq.replays, hl, fun hn id => ?_⟩ }
    rw [← hf hn id, listed, ← Projection.spot?_refresh hstill.sound hproper.filed id]
  | reading => exact h
  | holding => exact h
  | idle => exact h
  | checking => exact h
  | stopped => exact h

/-! ## Runs -/

/-- Whatever happens next keeps the invariant. -/
theorem step_inv {v : Service} (h : Inv account board n w)
    (hauth : v.authorize account board = true) (hboard : v.boardOf board = board)
    (hcov : w.server.Covers v account board) (a : Act) :
    Inv account board n (step v account n w a) := by
  cases a with
  | plan now a card target d b =>
    obtain ⟨source, hs⟩ := Server.plan_frame now a card target d b w.server
    simp only [step, hs]
    exact h.serve (Server.step_frame h.keeps h.keeps.memory (fun _ => rfl) rfl)
  | commit target slip p =>
    obtain ⟨note, hs, -⟩ := Server.commit_told h.keeps target slip p fun _ => h.ours
    exact h.serve hs
  | deactivate a id =>
    obtain ⟨note, hs⟩ := Server.deactivate_told h.keeps h.sole a id
    exact h.serve hs
  | take => exact inv_take v h
  | apply => exact inv_apply v h
  | check => exact inv_check v h
  | fetch => exact inv_fetch h hauth hboard hcov
  | display => exact inv_display v h

variable {s : Server}

/-- The invariant holds after every run in which no stage outgrows what the service shows. -/
theorem run_inv {v : Service} (hk : s.Keeps account board) (hs : s.Sole account board)
    (hh : s.Housed account board) (hauth : v.authorize account board = true)
    (hboard : v.boardOf board = board) {acts : List Act}
    (hcov : ∀ before, before <+: acts → (run v account board s before).server.Covers v account board) :
    Inv account board (number account board s) (run v account board s acts) := by
  induction acts using List.reverseRecOn with
  | nil => exact init_inv hk hs hh
  | append_singleton acts a ih =>
    have hinv := ih fun before hb => hcov before (hb.trans (List.prefix_append acts [a]))
    have hrun : run v account board s (acts ++ [a]) =
        step v account (number account board s) (run v account board s acts) a := by
      simp [run]
    rw [hrun]
    exact step_inv hinv hauth hboard (hcov acts (List.prefix_append acts [a])) a

/-- A client that watches never fails, and when it has nothing to do it shows every card of the
board in the stage and at the position where the server has it. -/
theorem converges {v : Service} (hk : s.Keeps account board) (hs : s.Sole account board)
    (hh : s.Housed account board) (hauth : v.authorize account board = true)
    (hboard : v.boardOf board = board) {acts : List Act}
    (hcov : ∀ before, before <+: acts →
      (run v account board s before).server.Covers v account board) :
    (run v account board s acts).phase ≠ .stopped ∧
      (AtRest (number account board s) (run v account board s acts) →
        ∀ id c, ((run v account board s acts).server.records account).card? id = some c →
          c.board = board → (run v account board s acts).view.spot? id = some (Spot.ofCard c)) := by
  have h := run_inv hk hs hh hauth hboard hcov
  obtain ⟨ns, sub, hq⟩ := h.queued
  have hready := hq.ready
  unfold Ready at hready
  constructor
  · intro hp
    rw [hp] at hready
    exact hready
  · rintro ⟨hp, hempty⟩ id c hc hb
    rw [hp] at hready
    -- nothing is on its way, and so nothing was dropped
    have hns : ns = [] := by
      rw [hq.found, Option.any_some, hq.holds] at hempty
      simpa using hempty
    subst hns
    have hl : sub.lagged = false := by
      cases hl : sub.lagged with
      | false => rfl
      | true => exact absurd rfl (hready.1 hl)
    rw [(hready.2 hl).of_nil id]
    exact h.housed.shown? hc hb

/-! ## A run with dropped events -/

/-- A card of the small server is moved. -/
def moving (key : String) (x : Float) : Act :=
  .commit (.text key) (.ok ()) ⟨"acme", "1", "sales", .text key, x⟩

/-- Two events are dropped from a buffer of one, and the client finds out when it applies a third;
a move that was made before the board is read again is told after that. -/
def overrun : List Act :=
  [.fetch, .display, moving "qualified" 2.0, moving "proposal" 3.0, .deactivate "acme" "proposal",
    .take, .apply, .check, moving "closed" 4.0, .fetch, .display, .take, .apply, .check]

theorem covers_overrun (before : List Act) (h : before <+: overrun) :
    (run {} "acme" "sales" (Server.sample 1) before).server.Covers {} "acme" "sales" := by
  have hall : ∀ before ∈ overrun.inits,
      (((run {} "acme" "sales" (Server.sample 1) before).server.records "acme").cards.length : Int) ≤
        50 := by decide
  exact Server.covers_of_length (hall before ((List.mem_inits before overrun).2 h))

/-- On that run the client ends with what the server has. -/
theorem converges_overrun :
    (run {} "acme" "sales" (Server.sample 1) overrun).view.spot? "1" =
      some (.text "closed", .real 4.0) :=
  (converges (v := {}) (Server.keeps_sample 1) (Server.sole_sample 1) (Server.housed_sample 1) rfl
    rfl covers_overrun).2 ⟨rfl, rfl⟩ "1"
      { id := "1", board := "sales", stage := "closed", position := 4.0 } rfl rfl

end Watcher

end Kanban
