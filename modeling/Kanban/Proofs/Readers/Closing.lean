import Kanban.Proofs.Readers.Turns

/-!
# Kanban.Proofs.Readers.Closing — readers when a subscription is closed

Readers that find nothing wait in line, and an event wakes the first of them. Closing a
subscription puts one end mark into a buffer that is empty and wakes one reader more; events that
are still buffered wake nobody. When the jobs have run, the readers that were ready have taken the
events, in the order in which they were started or woken, and whoever reads later gets what is
left and then the end. But there is one end mark and no more: a reader behind it in line waits for
ever, and so does one that waits while events are buffered for others, or that was woken by an
event that another took.

* `Readers` — the readers at a subscription that is open.
* `settle_eq` — jobs run as turns; `Readers.ready_shut` — the turns of readers when the
  subscription was closed.
* `Closed` — what becomes of the readers.
* `closing_readers` — whatever is buffered and whoever reads; all readers are answered iff nobody
  stays in line behind events that are buffered, and none that was woken comes too late.
-/

namespace Kanban

namespace Channel

variable {c : Channel} {n : Nat} {u : Subscription}

theorem woken_wake (n : Nat) (c : Channel) :
    (c.wake n).woken = c.woken ++ ((c.subscription? n).bind (·.waiting.head?)).toList := by
  unfold wake
  cases c.subscription? n with
  | none => simp
  | some u =>
    cases hw : u.waiting with
    | nil => simp [hw]
    | cons r rest => simp [hw, update]

/-- Closing wakes one reader if nothing is buffered. -/
theorem woken_close (hu : c.subscription? n = some u) (hc : u.closed = false) :
    (c.close n).woken = c.woken ++ if u.buffer = [] then u.waiting.head?.toList else [] := by
  unfold close
  rw [hu]
  dsimp only
  rw [if_neg (by simp [hc])]
  cases hb : u.buffer with
  | cons b rest => simp [unregister, update]
  | nil =>
    simp only [List.isEmpty_nil, if_true]
    rw [woken_wake, subscription?_update, if_pos rfl]
    -- striking a number off the registry touches no subscription
    have hsame : ((c.update n ({ · with closed := true })).unregister n u.key).subscription? n =
        (c.update n ({ · with closed := true })).subscription? n := rfl
    rw [hsame, subscription?_update, if_pos rfl, hu]
    rfl

/-- A closed subscription is read to its end: what is buffered, in order, and then no more. -/
theorem readAll_closed {l : List Value} {fuel : Nat} (hu : c.subscription? n = some u)
    (hc : u.closed = true) (hb : u.buffer = l.map some ∨ l = [] ∧ u.buffer = [none])
    (hl : ∀ e ∈ l, e ≠ .null) (hf : l.length < fuel) :
    (c.readAll n fuel).1 = l ∧
      (c.readAll n fuel).2.read n false = (.over, (c.readAll n fuel).2) := by
  obtain ⟨fuel, rfl⟩ := Nat.exists_eq_add_one_of_ne_zero (Nat.ne_zero_of_lt hf)
  induction l generalizing c u fuel with
  | nil =>
    have hread := Hub.read_closed hu hc false
    rcases hb with hb | ⟨-, hb⟩
    · rw [hb] at hread
      simp only [List.map_nil, Bool.false_eq_true, if_false] at hread
      rw [readAll, hread]
      exact ⟨rfl, hread⟩
    · rw [hb] at hread
      rw [readAll, hread]
      have hrest := Hub.read_closed (u := { u with buffer := [] })
        (c := c.update n fun _ => { u with buffer := [] })
        (by rw [subscription?_update, if_pos rfl, hu, Option.map_some]) hc false
      exact ⟨rfl, hrest⟩
  | cons e l ih =>
    have hb : u.buffer = some e :: l.map some := hb.resolve_right fun h => by cases h.1
    have hread : c.read n false =
        (.event e, c.update n fun _ => { u with buffer := l.map some }) := by
      rw [Hub.read_closed hu hc, hb]
      cases e with
      | null => exact absurd rfl (hl _ List.mem_cons_self)
      | _ => rfl
    obtain ⟨fuel, rfl⟩ := Nat.exists_eq_add_one_of_ne_zero
      (Nat.ne_zero_of_lt (Nat.lt_of_succ_lt_succ hf))
    obtain ⟨hrest, hend⟩ := ih (c := c.update n fun _ => { u with buffer := l.map some })
      (u := { u with buffer := l.map some })
      (by rw [subscription?_update, if_pos rfl, hu, Option.map_some]) hc (.inl rfl)
      (fun e he => hl e (List.mem_cons_of_mem _ he)) fuel (Nat.lt_of_succ_lt_succ hf)
    rw [readAll, hread]
    exact ⟨congrArg (e :: ·) hrest, hend⟩

end Channel

namespace Hub

variable {site n : Nat} {h : Hub}

/-! ## The jobs that run -/

/-- The hub when the jobs that were ready are about to run. -/
def calmed (h : Hub) : Hub := { h with ready := [] }

/-- The jobs that are ready have their turns, in the order in which they became so. -/
theorem settle_eq (h : Hub) : (settle h).2 = turns h.ready h.calmed := by
  have hforM (l : List (Nat × Bool)) (h : Hub) :
      ((l.forM fun r => runJob r.1 r.2 : StateM Hub PUnit) h).2 = turns l h := by
    induction l generalizing h with
    | nil => rfl
    | cons p l ih => exact ih _
  exact hforM h.ready h.calmed

/-! ## Readers at a subscription that is closed -/

/-- What a job came to, once it is done. -/
def result? (r : Nat) (h : Hub) : Option (Except Failure Value) := (h.jobs[r]?).bind (·.result)

/-- The hub when a subscription was closed and no job has run yet. -/
def shut (site n : Nat) (h : Hub) : Hub := (onChannel site (fun c => ((), c.close n)) h).2

/-- The hub when a subscription was closed and the jobs have run. -/
def closing (site n : Nat) (h : Hub) : Hub := (settle (h.shut site n)).2

/-- The readers at an open subscription with these events buffered: those that were started or woken
and have not run since, in that order and each with whether it was woken, and those that wait in
line. Each is here once. -/
structure Readers (site n : Nat) (events : List Value) (ready : List (Nat × Bool))
    (waiting : List Nat) (h : Hub) : Prop where
  subscription : ∃ s u, h.sites[site]? = some s ∧ s.channel.subscription? n = some u ∧
    u.closed = false ∧ u.buffer = events.map some ∧ u.waiting = waiting
  /-- Other jobs may be ready before, between and behind them. -/
  due : h.ready.filter (fun p => h.attends site n p.1) = ready
  once : (ready.map (·.1) ++ waiting).Nodup
  reads : ∀ r ∈ ready.map (·.1) ++ waiting, h.jobs[r]? = some (reader site n)
  proper : ∀ e ∈ events, e ≠ .null

/-- The readers that have a turn when the subscription is closed: those that were ready, and behind
them the first in line if nothing is buffered. -/
def called (events : List Value) (ready : List (Nat × Bool)) (waiting : List Nat) :
    List (Nat × Bool) :=
  ready ++ if events = [] then waiting.head?.toList.map (·, true) else []

/-- The readers that stay in line. -/
def left (events : List Value) (waiting : List Nat) : List Nat :=
  if events = [] then waiting.tail else waiting

variable {events : List Value} {ready : List (Nat × Bool)} {waiting : List Nat}

theorem called_append_left :
    called events ready waiting ++ (left events waiting).map (·, true) =
      ready ++ waiting.map (·, true) := by
  unfold called left
  split
  · cases waiting <;> simp
  · simp

/-- What became of readers when their subscription was closed and the jobs ran. -/
structure Closed (site n : Nat) (events : List Value) (called : List (Nat × Bool))
    (left : List Nat) (h : Hub) : Prop where
  /-- No job is ready any more. -/
  idle : h.ready = []
  /-- Events are taken in order. If there were none, the first reader takes the end mark. Behind
  that a reader that was started sees the end, and one that was woken waits again. -/
  answers : ∀ i r woken, called[i]? = some (r, woken) → h.result? r =
    if woken = true ∧ max 1 events.length ≤ i then none
    else some (.ok (events[i]?.getD .null))
  /-- Readers in line wait. -/
  waits : ∀ r ∈ left, h.result? r = none
  /-- Whoever reads later takes what is left, in order, and then all is over. -/
  rest : ∀ fuel, events.length < fuel → ∀ l c, (h.server site).channel.readAll n fuel = (l, c) →
    l = events.drop called.length ∧ c.read n false = (.over, c)

theorem attends_reader {r : Nat} (hr : h.jobs[r]? = some (reader site n)) :
    h.attends site n r = true := by
  simp [attends, hr, reader, Job.attends]

/-- Closing puts the end mark into an empty buffer. -/
theorem buffer_shut {u : Subscription} (hc : u.closed = false) (hb : u.buffer = events.map some) :
    u.shut.buffer = if events = [] then [none] else events.map some := by
  unfold Subscription.shut
  rw [if_neg (by simp [hc]), hb]
  cases events <;> simp

/-- What a reader is answered when the subscription was closed with these events buffered. -/
theorem answer?_shut {u : Subscription} (hc : u.closed = false) (hb : u.buffer = events.map some)
    (i : Nat) (woken : Bool) : answer? u.shut.buffer i woken =
      if woken = true ∧ max 1 events.length ≤ i then none else some (events[i]?.getD .null) := by
  unfold answer?
  rw [buffer_shut hc hb]
  cases events with
  | nil => cases i <;> simp
  | cons e rest =>
    have hmax : max 1 (e :: rest).length = (e :: rest).length := by simp
    rw [if_neg (List.cons_ne_nil e rest), hmax, List.getElem?_map]
    cases hi : (e :: rest)[i]? with
    | some b =>
      have hlt := (List.getElem?_eq_some_iff.1 hi).1
      have hnot : ¬(woken = true ∧ (e :: rest).length ≤ i) := fun h => absurd h.2 (Nat.not_le.2 hlt)
      rw [if_neg hnot]
      rfl
    | none =>
      simp only [List.getElem?_eq_none_iff.1 hi, and_true]
      rfl

/-- Of the jobs that are ready then, those that are readers. -/
theorem Readers.ready_shut (hr : Readers site n events ready waiting h) :
    (h.shut site n).ready.filter (fun p => h.attends site n p.1) = called events ready waiting := by
  obtain ⟨s, u, hs, hu, hc, hb, hw⟩ := hr.subscription
  have hwoken : (s.channel.quiet.close n).woken =
      if events = [] then waiting.head?.toList else [] := by
    rw [Channel.woken_close (c := s.channel.quiet) hu hc, hb, hw, Channel.woken_quiet,
      List.nil_append]
    simp only [List.map_eq_nil_iff]
  -- whoever is woken is the first of the readers in line
  have hreads : ∀ p ∈ (s.channel.quiet.close n).woken.map (·, true),
      h.attends site n p.1 = true := by
    rw [hwoken]
    refine List.forall_mem_map.2 fun r hmem => ?_
    split at hmem
    · have hline : r ∈ waiting := List.mem_of_mem_head? (by simpa using hmem)
      exact attends_reader (hr.reads r (List.mem_append_right _ hline))
    · cases hmem
  rw [shut, Stream.onChannel_apply hs, List.filter_append, hr.due, called,
    List.filter_eq_self.2 hreads, hwoken]
  split <;> rfl

/-- Readers have at most one turn. -/
theorem Readers.nodup_called (hr : Readers site n events ready waiting h) :
    ((called events ready waiting).map (·.1) ++ left events waiting).Nodup ∧
      ∀ r ∈ (called events ready waiting).map (·.1) ++ left events waiting,
        h.jobs[r]? = some (reader site n) := by
  have hall := congrArg (List.map Prod.fst) (@called_append_left events ready waiting)
  simp only [List.map_append, List.map_map, Function.comp_def, List.map_id'] at hall
  rw [hall]
  exact ⟨hr.once, hr.reads⟩

/-- The readers that were ready or woken have had their turns. -/
theorem Readers.served (hr : Readers site n events ready waiting h) :
    ∃ u : Subscription, u.closed = false ∧ u.buffer = events.map some ∧
      Served site n (called events ready waiting) u.shut (h.shut site n).calmed
        (closing site n h) := by
  obtain ⟨s, u, hs, hu, hc, hb, -⟩ := hr.subscription
  obtain ⟨honce, hreads⟩ := hr.nodup_called
  refine ⟨u, hc, hb, ?_⟩
  have hsub : (h.shut site n).calmed.subscription? site n = some u.shut := by
    have hset : (h.shut site n).calmed.subscription? site n =
        (s.channel.quiet.close n).subscription? n := by
      rw [shut, Stream.onChannel_apply hs]
      exact subscription?_set hs _
    rw [hset, Channel.subscription?_close, if_pos rfl, Channel.subscription?_quiet, hu,
      Option.map_some]
  -- the jobs are as they were before
  have hattends (r : Nat) : (h.shut site n).calmed.attends site n r = h.attends site n r := rfl
  rw [← hr.ready_shut, closing, settle_eq]
  refine turns_readers hsub u.closed_shut (fun p hp ha => ?_) ?_
  · have hmem : p ∈ (h.shut site n).ready.filter (fun p => h.attends site n p.1) :=
      List.mem_filter.2 ⟨hp, ha⟩
    rw [hr.ready_shut] at hmem
    exact hreads p.1 (List.mem_append_left _ (List.mem_map_of_mem hmem))
  · simp only [hattends, hr.ready_shut]
    exact (List.nodup_append.1 honce).1

/-- What is left of the buffer when a number of turns was had. -/
theorem drop_buffer_shut {u : Subscription} (hc : u.closed = false)
    (hb : u.buffer = events.map some) (k : Nat) :
    u.shut.buffer.drop k = (events.drop k).map some ∨
      events.drop k = [] ∧ u.shut.buffer.drop k = [none] := by
  rw [buffer_shut hc hb]
  cases events with
  | nil =>
    cases k with
    | zero => exact .inr ⟨rfl, rfl⟩
    | succ k => exact .inl (by simp)
  | cons e rest => exact .inl (by rw [if_neg (List.cons_ne_nil e rest), List.map_drop])

/-- What becomes of the readers when the subscription is closed. -/
theorem Readers.closed (hr : Readers site n events ready waiting h) :
    Closed site n events (called events ready waiting) (left events waiting)
      (closing site n h) := by
  obtain ⟨u, hc, hb, hserved⟩ := hr.served
  obtain ⟨honce, hreads⟩ := hr.nodup_called
  refine ⟨hserved.ready, fun i r woken hi => ?_, fun r hleft => ?_, fun fuel hf l c hread => ?_⟩
  · rw [result?, hserved.answers i _ hi, Option.bind_some, answer?_shut hc hb]
    split <;> rfl
  · -- a reader in line has no turn
    have hreader := hreads r (List.mem_append_right _ hleft)
    have hnot : r ∉ (called events ready waiting).map (·.1) := fun hmem =>
      (List.nodup_append.1 honce).2.2 r hmem r hleft rfl
    rw [result?, hserved.others r (attends_reader hreader) hnot]
    exact congrArg (·.bind (·.result)) hreader
  · obtain ⟨v, hv, hclosed, hbuffer, -⟩ := hserved.left
    obtain ⟨s, hs, hsub⟩ := Option.bind_eq_some_iff.1 hv
    have hrest := drop_buffer_shut hc hb (called events ready waiting).length
    rw [← hbuffer] at hrest
    rw [Stream.server_apply hs] at hread
    have hend := Channel.readAll_closed (c := s.channel.quiet) hsub hclosed hrest
      (fun e he => hr.proper e (List.mem_of_mem_drop he))
      (Nat.lt_of_le_of_lt (by simp) hf)
    rw [hread] at hend
    exact hend

/-- When nobody stays in line and there is something for each reader that is woken. -/
theorem left_eq_nil_and_reached_iff :
    (left events waiting = [] ∧ ∀ i r, (called events ready waiting)[i]? = some (r, true) →
      i < max 1 events.length) ↔
    (waiting = [] ∨ events = []) ∧ ∀ i r, (ready ++ waiting.map (·, true))[i]? = some (r, true) →
      i < max 1 events.length := by
  rw [← @called_append_left events ready waiting]
  constructor
  · rintro ⟨hleft, hreached⟩
    refine ⟨?_, by rwa [hleft, List.map_nil, List.append_nil]⟩
    by_cases he : events = []
    · exact .inr he
    · exact .inl (by rwa [left, if_neg he] at hleft)
  · rintro ⟨hw, hreached⟩
    have hleft : left events waiting = [] := by
      by_cases he : events = []
      · -- the end mark is for one reader, and a second one in line would need another
        subst he
        refine List.eq_nil_iff_forall_not_mem.2 fun r hr => ?_
        obtain ⟨r', rest, hrest⟩ : ∃ r' rest, waiting = r' :: rest :=
          List.exists_cons_of_ne_nil (by rintro rfl; cases hr)
        obtain ⟨i, hi⟩ := List.mem_iff_getElem?.1 (List.mem_map_of_mem (f := (·, true)) hr)
        have hlast := hreached ((called [] ready waiting).length + i) r (by
          rw [List.getElem?_append_right (Nat.le_add_right _ _), Nat.add_sub_cancel_left, hi])
        simp [called, hrest] at hlast
      · rw [left, if_neg he]
        exact hw.resolve_right he
    exact ⟨hleft, by rwa [hleft, List.map_nil, List.append_nil] at hreached⟩

/-- All readers are answered iff nobody stays in line and there is something for each that is
woken. -/
theorem Closed.answered_iff
    (hc : Closed site n events (called events ready waiting) (left events waiting) h) :
    (∀ r ∈ ready.map (·.1) ++ waiting, (h.result? r).isSome = true) ↔
      (waiting = [] ∨ events = []) ∧ ∀ i r, (ready ++ waiting.map (·, true))[i]? = some (r, true) →
        i < max 1 events.length := by
  have hall := congrArg (List.map Prod.fst) (@called_append_left events ready waiting)
  simp only [List.map_append, List.map_map, Function.comp_def, List.map_id'] at hall
  rw [← left_eq_nil_and_reached_iff, ← hall]
  constructor
  · intro hsome
    constructor
    · refine List.eq_nil_iff_forall_not_mem.2 fun r hr => ?_
      have hr' := hsome r (List.mem_append_right _ hr)
      rw [hc.waits r hr] at hr'
      cases hr'
    · -- a reader that was woken with nothing left for it has no answer
      intro i r hi
      refine Nat.lt_of_not_le fun hle => ?_
      have hr := hsome r (List.mem_append_left _ (List.mem_map.2 ⟨_, List.mem_of_getElem? hi, rfl⟩))
      rw [hc.answers i r true hi, if_pos ⟨rfl, hle⟩] at hr
      cases hr
  · rintro ⟨hleft, hreached⟩ r hr
    rw [hleft, List.append_nil] at hr
    obtain ⟨⟨r, woken⟩, hmem, rfl⟩ := List.mem_map.1 hr
    obtain ⟨i, hi⟩ := List.mem_iff_getElem?.1 hmem
    have hnot : ¬(woken = true ∧ max 1 events.length ≤ i) := by
      rintro ⟨rfl, hle⟩
      exact Nat.not_lt.2 hle (hreached i r hi)
    rw [hc.answers i r woken hi, if_neg hnot]
    rfl

/-- Closing a subscription frees the readers in the order of their turns, whatever is buffered, as
far as there is something for them; all of them are freed iff none stays in line behind what is
buffered, and for each that was woken there is an event or the end mark when its turn comes. -/
theorem closing_readers (hr : Readers site n events ready waiting h) :
    Closed site n events (called events ready waiting) (left events waiting)
        (closing site n h) ∧
      ((∀ r ∈ ready.map (·.1) ++ waiting, ((closing site n h).result? r).isSome = true) ↔
        (waiting = [] ∨ events = []) ∧
          ∀ i r, (ready ++ waiting.map (·, true))[i]? = some (r, true) → i < max 1 events.length) :=
  ⟨hr.closed, hr.closed.answered_iff⟩

/-! ## Readers at a new subscription -/

/-- A hub where a subscription was made and something else happened. -/
def subscribed (x : StateM Hub Unit) : Hub :=
  (do
    discard <| onChannel 0 (·.subscribe (.text "b"))
    x : StateM Hub Unit) { clock := 0.0 } |>.2

/-- An event that has a number. -/
def numbered (n : Int) : Value := .object [("n", .whole n)]

/-- Publish an event with a number. -/
def publishNumbered (n : Int) : StateM Hub Unit :=
  discard <| onChannel 0 (·.publish (.text "b") (numbered n))

/-- Two readers wait. -/
def twoWaiting : StateM Hub Unit := do
  discard <| start (reader 0 0)
  discard <| start (reader 0 0)
  settle

/-- Two readers wait and a third is started, and before it has run three events are published: they
wake the two. -/
def twoWoken : StateM Hub Unit := do
  twoWaiting
  discard <| start (reader 0 0)
  publishNumbered 1
  publishNumbered 2
  publishNumbered 3

/-- A reader waits and another is started, and before it has run one event is published. -/
def overtaken : StateM Hub Unit := do
  discard <| start (reader 0 0)
  settle
  discard <| start (reader 0 0)
  publishNumbered 1

theorem readers_twoWaiting : Readers 0 0 [] [] [0, 1] (subscribed twoWaiting) where
  subscription := ⟨_, _, rfl, rfl, rfl, rfl, rfl⟩
  due := rfl
  once := by decide
  reads := fun r hr => by
    rcases List.mem_pair.1 hr with rfl | rfl <;> rfl
  proper := fun e he => absurd he List.not_mem_nil

theorem readers_twoWoken :
    Readers 0 0 [numbered 1, numbered 2, numbered 3] [(2, false), (0, true), (1, true)] []
      (subscribed twoWoken) where
  subscription := ⟨_, _, rfl, rfl, rfl, rfl, rfl⟩
  due := rfl
  once := by decide
  reads := fun r hr => by
    have hr : r = 2 ∨ r = 0 ∨ r = 1 := by simpa using hr
    rcases hr with rfl | rfl | rfl <;> rfl
  proper := fun e he => by
    have he : e = numbered 1 ∨ e = numbered 2 ∨ e = numbered 3 := by simpa using he
    rcases he with rfl | rfl | rfl <;> exact Value.noConfusion

/-- The reader that was started takes the first event, and those that were woken take the others. -/
theorem closing_twoWoken :
    Closed 0 0 [numbered 1, numbered 2, numbered 3] [(2, false), (0, true), (1, true)] []
        (closing 0 0 (subscribed twoWoken)) ∧
      ∀ r ∈ [2, 0, 1], ((closing 0 0 (subscribed twoWoken)).result? r).isSome = true := by
  obtain ⟨hclosed, hanswered⟩ := closing_readers readers_twoWoken
  refine ⟨hclosed, hanswered.2 ⟨.inl rfl, fun i r hi => ?_⟩⟩
  exact (List.getElem?_eq_some_iff.1 hi).1

/-- A reader that was started before the event came overtakes the one that the event woke. -/
example : (closing 0 0 (subscribed overtaken)).result? 1 = some (.ok (numbered 1)) ∧
    (closing 0 0 (subscribed overtaken)).result? 0 = none := ⟨rfl, rfl⟩

/-- Of two readers that wait at an empty buffer the second is not woken by closing. -/
theorem closing_strands : ¬ ∀ (site n : Nat) (events : List Value) (ready : List (Nat × Bool))
    (waiting : List Nat) (h : Hub), Readers site n events ready waiting h →
      ∀ r ∈ ready.map (·.1) ++ waiting, ((closing site n h).result? r).isSome = true := by
  intro hall
  have hsome := hall 0 0 [] [] [0, 1] _ readers_twoWaiting 1 (by decide)
  have hnone : (closing 0 0 (subscribed twoWaiting)).result? 1 = none := rfl
  rw [hnone] at hsome
  cases hsome

end Hub

end Kanban
