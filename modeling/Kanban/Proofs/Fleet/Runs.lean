import Kanban.Proofs.Fleet.Steps
import Kanban.Proofs.Server.Reading
import Mathlib.Data.List.Induction

/-!
# Kanban.Proofs.Fleet.Runs — clients that move cards come to agree, or not

Any number of clients subscribe to a board and read it, and then all acts happen in any order. Once
nothing is in flight a client shows a card where the server has it, with one exception: where a late
answer has told it another place, and the server has not moved the card since.

* `run_inv` — every run keeps clients and server together.
* `agrees_iff` — when nothing is in flight, clients and server agree but for stray places.
* `astray_by_late_answer` — two clients that disagree for good.
-/

namespace Kanban

open Projection (Spot cardsOf)
open Server (Covers Listens Holds)

namespace Fleet

variable {account : String} {board : Key} {w : World} {astray : Nat → String → Option Spot}

/-! ## The start -/

variable {v : Service} {s : Server} {k : Nat}

/-- Clients that have read the board and done nothing since. -/
structure Opened (account : String) (board : Key) (s : Server) (k : Nat) (w : World) : Prop where
  inv : Inv account board w fun _ _ => none
  requests : w.requests = []
  answers : w.answers = []
  records : ∀ a, w.server.records a = s.records a
  size : w.server.channel.queueSize ≤ 0
  count : w.peers.length = k

theorem opened_zero (hk : s.Keeps account board) (hq : s.channel.queueSize ≤ 0) :
    Opened account board s 0 { server := s } where
  inv := ⟨hk, List.nodup_nil, by simp [World.errands], by simp⟩
  requests := rfl
  answers := rfl
  records := fun _ => rfl
  size := hq
  count := rfl

/-- A new subscription has a number that no client has. -/
theorem Inv.number_ne (h : Inv account board w astray) (key : Key) {q : Peer} (hq : q ∈ w.peers) :
    q.number ≠ (w.server.channel.subscribe key).1 := by
  obtain ⟨i, hi, rfl⟩ := List.getElem_of_mem hq
  obtain ⟨ns, sub, hs⟩ := h.sees (List.getElem?_eq_getElem hi)
  intro heq
  have hfound := hs.found
  rw [heq] at hfound
  simp [Channel.subscription?, Channel.subscribe] at hfound

/-- A client that has read a listing. -/
def reader (l : Listing) (number : Nat) : Peer where
  view := Projection.refresh l.cards { board := l.board, stages := l.stages }
  number := number

/-- A client that joins is a reader of what the server lists. -/
theorem join_eq {l : Listing} {t : Server}
    (hread : Client.readFrom v account board { w.server with
      channel := (w.server.channel.subscribe (Channel.keyOf account board)).2 } =
        (.ok l.toPayload, t)) (hl : l.Proper) :
    join account board v w = { w with
      server := t
      peers := w.peers ++
        [reader l (w.server.channel.subscribe (Channel.keyOf account board)).1] } := by
  have hview : (Projection.applyRefresh l.toPayload { board }).2 =
      Projection.refresh l.cards { board := l.board, stages := l.stages } :=
    congrArg Prod.snd (Projection.applyRefresh_listing hl { board })
  simp only [join, hread, hview, reader]

/-- A reader of what the server lists shows what the server has and waits for nothing. -/
theorem sees_reader {l : Listing} (hl : l.Proper)
    (hcards : ∀ c, ((cardsOf l.cards).find? (·.id = c)).map Spot.ofCard = s.shown? account board c)
    {n : Nat} {sub : Subscription} (hfound : s.channel.subscription? n = some sub)
    (hsub : Listens account board sub) (hsize : sub.size ≤ 0) (hempty : Holds [] sub) (i : Nat) :
    Sees account board s [] [] (fun _ => none) i (reader l n) [] sub := by
  have hstill : Projection.Still { board := l.board, stages := l.stages } :=
    (Projection.still_new l.board).congr
  have hview := Projection.still_refresh hstill hl.filed
  exact {
    sound := hview.sound
    found := hfound
    listens := hsub
    unbounded := hsize
    holds := hempty
    moves := by simp
    agreed := fun c => by
      rw [Server.map_carryAll_nil, reader, hview.agreed?,
        Projection.spot?_refresh hstill.sound hl.filed, hcards]
      rfl
    shown := by simp
    known := by simp
    underway := fun hm => absurd hm (by simp [reader, Projection.refresh, Projection.supersede,
      Entries.values])
    told := by simp }

/-- One more client reads the board. -/
theorem opened_join (h : Opened account board s k w) (hauth : v.authorize account board = true)
    (hboard : v.boardOf board = board) (hcov : s.Covers v account board) :
    Opened account board s (k + 1) (join account board v w) := by
  obtain ⟨key, hkey⟩ : ∃ key, key = Channel.keyOf account board := ⟨_, rfl⟩
  have hkeeps := h.inv.keeps.withChannel (Channel.exact_subscribe h.inv.keeps.exact key)
  have hcov' : Covers v account board
      { w.server with channel := (w.server.channel.subscribe key).2 } := by
    intro c
    have hsame : Server.records account { w.server with
        channel := (w.server.channel.subscribe key).2 } = s.records account := h.records account
    rw [hsame]
    exact hcov c
  obtain ⟨l, t, hread, hproper, -, hspots, hstep, hrecords, hchannel⟩ :=
    Server.readFrom_listing hkeeps hauth hboard hcov'
  replace hchannel : t.channel = (w.server.channel.subscribe key).2 := hchannel
  have hnew (q : Peer) (hq : q ∈ w.peers) := h.inv.number_ne key hq
  have hshown (c : String) : t.shown? account board c = w.server.shown? account board c := by
    rw [Server.shown?, hrecords]
    rfl
  rw [join_eq (hkey ▸ hread) hproper, ← hkey]
  refine ⟨⟨hstep.keeps, ?_, ?_, ?_⟩, h.requests, h.answers, fun a => (hrecords a).trans (h.records a),
    ?_, ?_⟩
  · rw [List.map_append, List.map_singleton, List.nodup_append]
    refine ⟨h.inv.numbers, List.nodup_singleton _, fun n hn m hm => ?_⟩
    obtain ⟨q, hq, rfl⟩ := List.mem_map.1 hn
    exact List.mem_singleton.1 hm ▸ hnew q hq
  · simp [World.errands, h.requests, h.answers]
  · intro i p hp
    rw [List.getElem?_append] at hp
    split at hp
    · -- a client that was there already
      obtain ⟨ns, sub, hs⟩ := h.inv.sees hp
      refine ⟨ns, sub, hs.frame hshown ?_ (fun _ _ => .rfl) (fun _ ha _ _ _ => ha) fun _ => rfl⟩
      rw [hchannel]
      exact Channel.subscription?_subscribe_of_ne (hnew p (List.mem_of_getElem? hp))
    · -- the new client
      obtain rfl := List.mem_singleton.1 (List.mem_of_getElem? hp)
      have hfound := hchannel ▸ Channel.subscription?_subscribe_self key w.server.channel
      refine ⟨[], { key, size := w.server.channel.queueSize }, ?_⟩
      dsimp only [World.errands]
      rw [h.requests, h.answers]
      exact sees_reader hproper (fun c => (hspots c).trans (hshown c).symm) hfound
        ⟨hkey, rfl, rfl⟩ h.size rfl i
  · rw [hchannel]
    exact h.size
  · rw [List.length_append, h.count]
    rfl

/-- So many clients have read the board. -/
theorem opened_start (hk : s.Keeps account board) (hauth : v.authorize account board = true)
    (hboard : v.boardOf board = board) (hcov : s.Covers v account board)
    (hq : s.channel.queueSize ≤ 0) (k : Nat) :
    Opened account board s k (start account board v s k) := by
  induction k with
  | zero => exact opened_zero hk hq
  | succ k ih => exact opened_join ih hauth hboard hcov

/-! ## Runs -/

/-- The invariant holds after every run. -/
theorem run_inv (hk : s.Keeps account board) (hauth : v.authorize account board = true)
    (hboard : v.boardOf board = board) (hcov : s.Covers v account board)
    (hq : s.channel.queueSize ≤ 0) (k : Nat) (acts : List Act) :
    Inv account board (run account board v s k acts) fun i c =>
      strayed account board v s k i c acts := by
  induction acts using List.reverseRecOn with
  | nil => exact (opened_start hk hauth hboard hcov hq k).inv
  | append_singleton acts a ih =>
    have hrun : run account board v s k (acts ++ [a]) =
        step account board (run account board v s k acts) a := by
      simp [run]
    have hstray (i : Nat) (c : String) : strayed account board v s k i c (acts ++ [a]) =
        stray account board i c (run account board v s k acts)
          (strayed account board v s k i c acts) a := by
      have hworld : acts.foldl (step account board)
          (start account board v s k, (none : Option Spot)).1 =
            (acts.foldl (watch account board i c) (start account board v s k, none)).1 :=
        List.foldl_hom Prod.fst fun _ _ => rfl
      rw [strayed, List.foldl_append, run, hworld]
      rfl
    simp only [hrun, hstray]
    exact step_inv ih a

/-- No client comes or goes. -/
theorem length_step (w : World) (a : Act) :
    (step account board w a).peers.length = w.peers.length := by
  cases a <;> unfold step <;> dsimp only <;> repeat' split
  all_goals simp

theorem length_run (hk : s.Keeps account board) (hauth : v.authorize account board = true)
    (hboard : v.boardOf board = board) (hcov : s.Covers v account board)
    (hq : s.channel.queueSize ≤ 0) (k : Nat) (acts : List Act) :
    (run account board v s k acts).peers.length = k := by
  induction acts using List.reverseRecOn with
  | nil => exact (opened_start hk hauth hboard hcov hq k).count
  | append_singleton acts a ih =>
    rw [run, List.foldl_append]
    exact (length_step _ a).trans ih

/-- With nothing in flight, what a client shows is what it has agreed on with the server. -/
theorem Inv.spot? (h : Inv account board w astray) (hquiet : Quiet w) {i : Nat} {p : Peer}
    (hp : w.peers[i]? = some p) (card : String) :
    p.view.spot? card = (astray i card).or (w.server.shown? account board card) := by
  obtain ⟨hrequests, hanswers, hevents⟩ := hquiet
  obtain ⟨ns, sub, hs⟩ := h.sees hp
  -- no event is on its way
  have hns : ns = [] := by
    have hempty := hevents p (List.mem_of_getElem? hp)
    rw [hs.found, Option.any_some, hs.holds] at hempty
    simpa using hempty
  -- a live move would be in flight
  have hlive : p.view.live? card = none := by
    rw [Option.eq_none_iff_forall_ne_some]
    intro m hm
    obtain ⟨hget, -, ho, -⟩ :=
      hs.sound.ledger.of_pendingMove (Projection.live?_eq_some_iff.1 hm).1
    obtain ⟨e, he, -⟩ := hs.underway hget ho
    simp [World.errands, hrequests, hanswers] at he
  have hagreed := hs.agreed card
  rw [hns, Server.map_carryAll_nil, Projection.agreed?_of_not_live hlive] at hagreed
  exact hagreed

/-- When nothing is in flight, all clients are there, and each shows a card in the stage and at the
position where the server has it, unless a late answer has told it another place and the server has
not moved the card since. -/
theorem agrees_iff (hk : s.Keeps account board) (hauth : v.authorize account board = true)
    (hboard : v.boardOf board = board) (hcov : s.Covers v account board)
    (hq : s.channel.queueSize ≤ 0) (k : Nat) (acts : List Act)
    (hquiet : Quiet (run account board v s k acts)) :
    (run account board v s k acts).peers.length = k ∧
      ∀ i p, (run account board v s k acts).peers[i]? = some p → ∀ card,
        (p.view.spot? card = (run account board v s k acts).server.shown? account board card ↔
          ∀ z, strayed account board v s k i card acts = some z →
            (run account board v s k acts).server.shown? account board card = some z) := by
  have h := run_inv hk hauth hboard hcov hq k acts
  refine ⟨length_run hk hauth hboard hcov hq k acts, fun i p hp card => ?_⟩
  rw [h.spot? hquiet hp card]
  cases strayed account board v s k i card acts with
  | none => simp
  | some z => simp [eq_comm]

/-! ## Clients that disagree -/

/-- The move of one client is overridden by another's, carried out nevertheless, and replaced once
all of that was heard. Its success is learnt then, when the other client has moved the card again;
and the move that replaced it fails. -/
def lateAnswer : List Act :=
  [.begin 0 0.0 "1" "qualified" { absolute := some 10.0 },
    .begin 1 0.0 "1" "proposal" { absolute := some 20.0 },
    .serve 1 0.0, .serve 0 0.0, .receive 0,
    .begin 1 0.0 "1" "negotiation" { absolute := some 30.0 }, .serve 0 0.0,
    .hear 0, .hear 0, .hear 0,
    .begin 0 0.0 "1" "closed" { absolute := some 40.0 },
    .receive 0, .loseRequest 0 ⟨.timedOut, rfl⟩, .receive 1, .receive 0,
    .hear 1, .hear 1, .hear 1]

/-- The clients disagree, with nothing in flight: one shows the card where the server has it, the
other where its own first move has put it for a while. -/
theorem astray_by_late_answer :
    Quiet (run "acme" "sales" {} (Server.sample 0) 2 lateAnswer) ∧
      (run "acme" "sales" {} (Server.sample 0) 2 lateAnswer).server.shown? "acme" "sales" "1" =
        some (.text "negotiation", .real 30.0) ∧
      (run "acme" "sales" {} (Server.sample 0) 2 lateAnswer).peers.map (·.view.spot? "1") =
        [some (.text "qualified", .real 10.0), some (.text "negotiation", .real 30.0)] := by
  decide +kernel

/-- The criterion on that run. -/
theorem agrees_iff_lateAnswer :
    (run "acme" "sales" {} (Server.sample 0) 2 lateAnswer).peers.length = 2 ∧
      ∀ i p, (run "acme" "sales" {} (Server.sample 0) 2 lateAnswer).peers[i]? = some p → ∀ card,
        (p.view.spot? card =
            (run "acme" "sales" {} (Server.sample 0) 2 lateAnswer).server.shown? "acme" "sales" card ↔
          ∀ z, strayed "acme" "sales" {} (Server.sample 0) 2 i card lateAnswer = some z →
            (run "acme" "sales" {} (Server.sample 0) 2 lateAnswer).server.shown? "acme" "sales" card =
              some z) :=
  agrees_iff (Server.keeps_sample 0) rfl rfl (Server.covers_of_length (by decide)) (by decide) 2
    lateAnswer (by decide +kernel)

end Fleet

end Kanban
