import Kanban.Proofs.Server.Telling

/-!
# Kanban.Proofs.Server.Queue — notices on their way

A subscription to a board holds the notices that were told and not read yet, but for those that
were dropped from a full buffer. What a client takes to be the places of cards is fresh if the
notices on their way make the server's places of it.

* `Holds` — the notices that a subscription holds; `holds_tell` — one more is told, `read_held` —
  the oldest is taken.
* `Fresh` — places that become the server's; `Fresh.told` keeps it.
* `Replays` — notices that, heard late, still lead to the server's places; `Replays.told` keeps it.
-/

namespace Kanban

open Projection (Spot)

namespace Server

variable {account : String} {board : Key} {s t : Server} {note : Option Notice}

/-- What a subscription holds. -/
def Holds (ns : List Notice) (sub : Subscription) : Prop :=
  sub.buffer = ns.map fun n => some n.toValue

/-- What of the held notices stays when something is told: a full buffer drops the oldest. -/
def kept (note : Option Notice) (sub : Subscription) (ns : List Notice) : List Notice :=
  if note.isSome && sub.isFull then ns.tail else ns

/-- Whether a notice is dropped. -/
def drops (note : Option Notice) (sub : Subscription) : Bool := note.isSome && sub.isFull

theorem holds_tell {ns : List Notice} {sub : Subscription} (h : Holds ns sub)
    (note : Option Notice) :
    Holds (kept note sub ns ++ note.toList) (tell note sub) ∧
      (tell note sub).lagged = (sub.lagged || drops note sub) := by
  cases note with
  | none => simp [tell, kept, drops, h]
  | some n =>
    unfold Holds at h
    cases hf : sub.isFull with
    | true =>
      constructor
      · simp [Holds, tell, kept, Subscription.deliver, Subscription.accept, hf, h]
      · simp [tell, drops, Subscription.deliver, Subscription.accept, hf]
    | false =>
      constructor
      · simp [Holds, tell, kept, Subscription.deliver, Subscription.accept, hf, h]
      · simp [tell, drops, Subscription.deliver, Subscription.accept, hf]

theorem size_tell (note : Option Notice) (sub : Subscription) :
    (tell note sub).size = sub.size := by
  cases note with
  | none => rfl
  | some n => cases hf : sub.isFull <;> simp [tell, Subscription.deliver, Subscription.accept, hf]

/-- Without a bound nothing is dropped. -/
theorem kept_of_unbounded {sub : Subscription} (h : sub.size ≤ 0) (note : Option Notice)
    (ns : List Notice) : kept note sub ns = ns := by
  have hfull : sub.isFull = false := by
    unfold Subscription.isFull
    rw [decide_eq_false (by omega), Bool.false_and]
  simp [kept, hfull]

/-- A subscription that took the oldest of what it holds. -/
def taken (sub : Subscription) : Subscription := { sub with buffer := sub.buffer.tail }

theorem holds_taken {ns : List Notice} {sub : Subscription} (h : Holds ns sub) :
    Holds ns.tail (taken sub) := by
  unfold Holds at h ⊢
  rw [taken, h, List.map_tail]

theorem listens_taken {sub : Subscription} (h : Listens account board sub) :
    Listens account board (taken sub) := ⟨h.key, h.closed, h.broken⟩

/-- Reading gives the oldest notice, or nothing when none is on its way. -/
theorem read_held {c : Channel} {n : Nat} {sub : Subscription} {ns : List Notice}
    (hn : c.subscription? n = some sub) (hl : Listens account board sub) (hh : Holds ns sub) :
    c.read n false = match ns with
      | [] => (.pending, (c.take n).2)
      | m :: _ => (.event m.toValue, (c.take n).2) := by
  have hbuf : sub.buffer = ns.map fun m => some m.toValue := hh
  cases ns with
  | nil => simp [Channel.read, Channel.take, hn, Subscription.isOver, hl.closed,
      Subscription.take, hbuf]
  | cons m ns =>
    cases m <;> simp [Channel.read, Channel.take, hn, Subscription.isOver, hl.closed,
      Subscription.take, hbuf, Notice.toValue]

theorem subscription?_taken {c : Channel} {n : Nat} {sub : Subscription}
    (hn : c.subscription? n = some sub) : (c.take n).2.subscription? n = some (taken sub) := by
  rw [Channel.subscription?_take, if_pos rfl, hn]
  rfl

/-- A server in order stays so when only subscriptions change. -/
theorem Keeps.withChannel (h : s.Keeps account board) {c : Channel} (hc : c.Exact) :
    ({ s with channel := c } : Server).Keeps account board := ⟨h.memory, h.filed, h.named, hc⟩

/-! ## Fresh places -/

/-- Places that become those of the server when the notices on their way are heard. -/
def Fresh (account : String) (board : Key) (s : Server) (places : String → Option Spot)
    (ns : List Notice) : Prop :=
  ∀ id, (places id).map (Notice.carryAll id ns) = s.shown? account board id

theorem Fresh.of_nil {places : String → Option Spot} (h : s.Fresh account board places [])
    (id : String) : places id = s.shown? account board id :=
  (map_carryAll_nil id _).symm.trans (h id)

/-- Places stay fresh when a notice is told and none is dropped. -/
theorem Fresh.told {places : String → Option Spot} {ns : List Notice}
    (h : s.Fresh account board places ns) (ht : Told account board note s t) :
    t.Fresh account board places (ns ++ note.toList) := by
  intro id
  rw [ht.shown, ← h id, Option.map_map]
  -- first what was on its way, then what was told
  congr 1
  funext z
  exact Notice.carryAll_append id ns note.toList z

/-! ## Replaying -/

/-- Notices that lead to the server's places, also where these were reached already: what they tell
of a card ends where the card is, and the stages that they fold are closed. -/
structure Replays (account : String) (board : Key) (s : Server) (ns : List Notice) : Prop where
  tells : ∀ id y z, (∃ n ∈ ns, n.tells id) → s.shown? account board id = some z →
    Notice.carryAll id ns y = z
  folds : ∀ k f, .folded k f ∈ ns → s.isOpen account board (.text k) = false

theorem replays_nil : s.Replays account board [] where
  tells := by simp
  folds := by simp

/-- Of the server's own places, notices that are heard late make the same. -/
theorem Replays.carryAll {ns : List Notice} (h : s.Replays account board ns) {id : String} {z : Spot}
    (hz : s.shown? account board id = some z) : Notice.carryAll id ns z = z := by
  by_cases ht : ∃ n ∈ ns, n.tells id
  · exact h.tells id z z ht hz
  · -- nothing but folds of stages that the card is not in
    have hopen : s.isOpen account board z.1 = true := Records.isOpen_of_shown? hz
    have hstay (n : Notice) (hn : n ∈ ns) : n.carry id z = z := by
      cases n with
      | moved c stage x =>
        have hne : id ≠ c := fun heq => ht ⟨_, hn, by simp [Notice.tells, heq]⟩
        exact if_neg hne
      | folded stage fallback =>
        have hclosed := h.folds stage fallback hn
        have hne : z.1 ≠ .text stage := by
          intro heq
          rw [heq, hclosed] at hopen
          simp at hopen
        exact if_neg hne
    have hall (ms : List Notice) (hms : ∀ n ∈ ms, n ∈ ns) : Notice.carryAll id ms z = z := by
      induction ms with
      | nil => rfl
      | cons n ms ih =>
        rw [Notice.carryAll_cons, hstay n (hms n (by simp))]
        exact ih fun m hm => hms m (List.mem_cons_of_mem _ hm)
    exact hall ns fun _ hn => hn

/-- The server's own places are fresh. -/
theorem Replays.fresh {ns : List Notice} (h : s.Replays account board ns)
    {places : String → Option Spot} (hp : ∀ id, places id = s.shown? account board id) :
    s.Fresh account board places ns := by
  intro id
  rw [hp]
  cases hz : s.shown? account board id with
  | none => rfl
  | some z => exact congrArg some (h.carryAll hz)

theorem Replays.tail {ns : List Notice} (h : s.Replays account board ns) :
    s.Replays account board ns.tail := by
  cases ns with
  | nil => exact h
  | cons n ns =>
    refine ⟨fun id y z ht hz => ?_, fun k f hm => h.folds k f (List.mem_cons_of_mem _ hm)⟩
    -- what the rest tells of a card overrides what the first notice tells
    obtain ⟨m, hm, hmt⟩ := ht
    rw [← h.tells id y z ⟨m, List.mem_cons_of_mem _ hm, hmt⟩ hz, Notice.carryAll_cons]
    exact Notice.carryAll_of_tells ⟨m, hm, hmt⟩ _ _

/-- What is told last leads to where the server's cards are afterwards. -/
theorem Replays.append {ns : List Notice} (h : s.Replays account board ns)
    (ht : Told account board note s t) : t.Replays account board (ns ++ note.toList) := by
  refine ⟨fun id y z htells hz => ?_, fun k f hm => ?_⟩
  · rw [ht.shown] at hz
    obtain ⟨x, hx, rfl⟩ := Option.map_eq_some_iff.1 hz
    rw [Notice.carryAll_append]
    by_cases hns : ∃ n ∈ ns, n.tells id
    · -- told before: it ends where the card was, and goes on from there
      rw [h.tells id y x hns hx]
    · -- told now: where the card was does not matter
      obtain ⟨n, hn, hnt⟩ := htells
      rcases List.mem_append.1 hn with hn | hn
      · exact absurd ⟨n, hn, hnt⟩ hns
      · exact Notice.carryAll_of_tells ⟨n, hn, hnt⟩ _ _
  · rcases List.mem_append.1 hm with hm | hm
    · -- stages do not open again
      have hs := h.folds k f hm
      cases hto : t.isOpen account board (.text k) with
      | false => rfl
      | true =>
        rw [ht.opened _ hto] at hs
        simp at hs
    · exact ht.closed k f (by simpa using hm)

/-- Whatever is dropped, what stays and what is told leads to the server's places. -/
theorem Replays.told {ns : List Notice} (h : s.Replays account board ns)
    (ht : Told account board note s t) (sub : Subscription) :
    t.Replays account board (kept note sub ns ++ note.toList) := by
  unfold kept
  split
  · exact h.tail.append ht
  · exact h.append ht

end Server

end Kanban
