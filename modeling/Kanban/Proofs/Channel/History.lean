import Kanban.Proofs.Channel.Registry
import Mathlib.Data.List.Induction

/-!
# Kanban.Proofs.Channel.History — what becomes of a channel

Subscriptions are made and closed, events are published and read, and at some moment deliveries to
a subscription may begin to fail. An act changes each subscription by itself (`effect`), so what a
history does to one of them can be followed without the others.

* `Act`, `act`, `after` — the acts, and the channel after a history of them.
* `exact_act`, `exact_after` — no act makes the registry inexact.
* `subscription?_act` — what an act does to the subscriptions that are there.
* `FansOut` — a publication reaches the working subscriptions of its key and closes the others.
* `fans_out` — after every history.
-/

namespace Kanban

/-- A subscription that hears an event stays open unless the delivery fails. -/
theorem Subscription.isOpen_hear (key : Key) (e : Value) (s : Subscription) :
    (s.hear e).isOpen key = (s.isOpen key && !s.broken) := by
  unfold hear
  by_cases hb : s.broken
  · simp [isOpen, hb]
  · simp [isOpen, hb, deliver]

@[simp] theorem Subscription.size_hear (e : Value) (s : Subscription) :
    (s.hear e).size = s.size := by
  unfold hear shut deliver accept
  repeat' split
  all_goals rfl

@[simp] theorem Subscription.size_shut (s : Subscription) : s.shut.size = s.size := by
  unfold shut
  repeat' split
  all_goals rfl

namespace Channel

/-- What happens on a channel. -/
inductive Act where
  /-- A subscription is made. -/
  | subscribe (key : Key)
  /-- An event is published. -/
  | publish (key : Key) (e : Value)
  /-- A subscription is closed. -/
  | close (n : Nat)
  /-- From now on deliveries to a subscription fail. -/
  | sever (n : Nat)
  /-- What a subscription has buffered first is taken. -/
  | take (n : Nat)
  /-- A reader looks at a subscription, for the first time or after it was woken. -/
  | read (n : Nat) (woken : Bool)
  /-- A reader that found nothing waits in line. -/
  | wait (n reader : Nat)
  /-- A consumer takes note that events were dropped. -/
  | clear (n : Nat)

/-- The channel after an act. -/
def act (c : Channel) : Act → Channel
  | .subscribe key => (c.subscribe key).2
  | .publish key e => (c.publish key e).2
  | .close n => c.close n
  | .sever n => c.update n ({ · with broken := true })
  | .take n => (c.take n).2
  | .read n woken => (c.read n woken).2
  | .wait n reader => c.wait n reader
  | .clear n => c.update n ({ · with lagged := false })

/-- The channel after a history. -/
def after (queueSize : Int) (history : List Act) : Channel := history.foldl act { queueSize }

/-- The key that an act makes a subscription for. -/
def Act.key? : Act → Option Key
  | .subscribe key => some key
  | _ => none

/-- The keys that subscriptions were made for, in the order in which they were made. -/
def subscribed (history : List Act) : List Key := history.filterMap Act.key?

@[simp] theorem after_append (queueSize : Int) (history later : List Act) :
    after queueSize (history ++ later) = later.foldl act (after queueSize history) :=
  List.foldl_append

/-! ## What an act does to the subscriptions that are there -/

/-- What an act does to subscription `m`, once it was made. -/
def effect (m : Nat) (s : Subscription) : Act → Subscription
  | .subscribe _ => s
  | .publish key e => if s.isOpen key then s.hear e else s
  | .close n => if m = n then s.shut else s
  | .sever n => if m = n then { s with broken := true } else s
  | .take n | .read n _ => if m = n then { s with buffer := s.buffer.tail } else s
  | .wait n reader => if m = n then { s with waiting := s.waiting ++ [reader] } else s
  | .clear n => if m = n then { s with lagged := false } else s

@[simp] theorem key_effect (m : Nat) (s : Subscription) (x : Act) :
    (effect m s x).key = s.key := by
  cases x <;> simp only [effect] <;> split <;> simp

@[simp] theorem size_effect (m : Nat) (s : Subscription) (x : Act) :
    (effect m s x).size = s.size := by
  cases x <;> simp only [effect] <;> split <;> simp

/-- Nothing opens a subscription again. -/
theorem closed_effect (m : Nat) {s : Subscription} (h : s.closed = true) (x : Act) :
    (effect m s x).closed = true := by
  cases x <;> simp [effect, Subscription.isOpen, h] <;> split <;> simp [h]

/-- A read leaves the channel as taking does: where it finds the end at once, nothing is there to
be taken. -/
theorem subscription?_read (n m : Nat) (woken : Bool) (c : Channel) :
    (c.read n woken).2.subscription? m =
      if m = n then (c.subscription? m).map fun s => { s with buffer := s.buffer.tail }
      else c.subscription? m := by
  rw [← subscription?_take]
  unfold read
  cases hs : c.subscription? n with
  | none => simp [take, hs]
  | some s =>
    by_cases ho : !woken && s.isOver
    · -- the buffer is empty
      have hb : s.buffer = [] := by
        simp only [Subscription.isOver, Bool.and_eq_true] at ho
        exact List.isEmpty_iff.1 ho.2.2
      simp only [ho, if_true, subscription?_take]
      by_cases hm : m = n
      · subst hm
        simp only [hs, if_true, Option.map_some, hb, List.tail_nil, Option.some.injEq]
        rw [← hb]
      · simp [hm]
    · simp only [ho, if_false, Bool.false_eq_true]
      split <;> simp_all

theorem exact_read {c : Channel} (h : c.Exact) (n : Nat) (woken : Bool) :
    (c.read n woken).2.Exact := by
  unfold read
  cases hs : c.subscription? n with
  | none => exact h
  | some s =>
    by_cases ho : !woken && s.isOver
    · simpa [ho] using h
    · have ht := exact_take h n
      simp only [ho, if_false, Bool.false_eq_true]
      split <;> simp_all

theorem exact_act {c : Channel} (h : c.Exact) (x : Act) : (act c x).Exact := by
  cases x with
  | subscribe key => exact exact_subscribe h key
  | publish key e => exact exact_publish h key e
  | close n => exact exact_close h n
  | sever n => exact exact_update h n (fun _ => rfl) (fun _ => rfl)
  | take n => exact exact_take h n
  | read n woken => exact exact_read h n woken
  | wait n reader => exact exact_update h n (fun _ => rfl) (fun _ => rfl)
  | clear n => exact exact_update h n (fun _ => rfl) (fun _ => rfl)

/-- No history makes the registry inexact. -/
theorem exact_after (queueSize : Int) (history : List Act) :
    (after queueSize history).Exact := by
  induction history using List.reverseRecOn with
  | nil => exact exact_new queueSize
  | append_singleton history x ih =>
    rw [after_append]
    exact exact_act ih x

/-- The size of new buffers is given once. -/
theorem queueSize_after (queueSize : Int) (history : List Act) :
    (after queueSize history).queueSize = queueSize := by
  have hread (n : Nat) (woken : Bool) (c : Channel) :
      (c.read n woken).2.queueSize = c.queueSize := by
    have ht := queueSize_take n c
    unfold read
    split <;> [rfl; split <;> [rfl; (split <;> simp_all)]]
  induction history using List.reverseRecOn with
  | nil => rfl
  | append_singleton history x ih =>
    rw [after_append]
    refine Eq.trans ?_ ih
    cases x <;> simp [act, subscribe, update, wait, hread]

/-- An act that makes no subscription acts on each subscription by itself. -/
theorem subscription?_act {c : Channel} (h : c.Exact) {x : Act} (hx : x.key? = none) (m : Nat) :
    (act c x).subscription? m = (c.subscription? m).map fun s => effect m s x := by
  -- all but the publication change one subscription and leave the others
  have hone (n : Nat) (f : Subscription → Subscription) :
      (if m = n then (c.subscription? m).map f else c.subscription? m) =
        (c.subscription? m).map fun s => if m = n then f s else s := by
    split <;> simp
  cases x with
  | subscribe key => simp [Act.key?] at hx
  | publish key e => exact subscription?_publish h key e m
  | close n => exact (subscription?_close n m c).trans (hone n _)
  | sever n => exact (subscription?_update n m _ c).trans (hone n _)
  | take n => exact (subscription?_take n m c).trans (hone n _)
  | read n woken => exact (subscription?_read n m woken c).trans (hone n _)
  | wait n reader => exact (subscription?_update n m _ c).trans (hone n _)
  | clear n => exact (subscription?_update n m _ c).trans (hone n _)

/-- A subscription that is there stays, whatever the act. -/
theorem subscription?_act_of_some {c : Channel} (h : c.Exact) (x : Act) {m : Nat}
    {s : Subscription} (hs : c.subscription? m = some s) :
    (act c x).subscription? m = some (effect m s x) := by
  cases hx : x.key? with
  | none => rw [subscription?_act h hx, hs, Option.map_some]
  | some key =>
    obtain rfl : x = .subscribe key := by
      cases x <;> simp_all [Act.key?]
    -- a new subscription gets a number that was not given before
    obtain ⟨hlt, -⟩ := List.getElem?_eq_some_iff.1 hs
    exact (subscription?_subscribe_of_ne (Nat.ne_of_lt hlt)).trans hs

/-- Subscriptions are numbered in the order in which they were made, and keep the key they were
made for. -/
theorem keys_after (queueSize : Int) (history : List Act) :
    (after queueSize history).subscriptions.map (·.key) = subscribed history := by
  induction history using List.reverseRecOn with
  | nil => rfl
  | append_singleton history x ih =>
    have hexact := exact_after queueSize history
    have hsplit : subscribed (history ++ [x]) = subscribed history ++ x.key?.toList := by
      cases hx : x.key? <;> simp [subscribed, hx]
    rw [after_append, hsplit, ← ih]
    cases hx : x.key? with
    | none =>
      refine List.ext_getElem? fun m => ?_
      have hm := subscription?_act hexact hx m
      simp only [subscription?] at hm
      simp [List.getElem?_map, hm, Function.comp_def]
    | some key =>
      obtain rfl : x = .subscribe key := by
        cases x <;> simp_all [Act.key?]
      simp [act, subscribe]

/-! ## Fan-out -/

/-- Whether deliveries to a subscription succeed. -/
def works (c : Channel) (n : Nat) : Bool := (c.subscription? n).any (!·.broken)

/-- What a publication should do: it is delivered to the working subscriptions of its key, wherever
they stand among failing ones, and to nobody else; and those that fail are closed. -/
structure FansOut (key : Key) (e : Value) (c : Channel) : Prop where
  /-- The number of those reached is given. -/
  reached : (c.publish key e).1 = ((c.numbers key).filter c.works).length
  /-- A working subscription has the event buffered last, once. -/
  delivered : ∀ n ∈ c.numbers key, ∀ s, c.subscription? n = some s → s.broken = false →
    (c.publish key e).2.subscription? n = some (s.deliver e) ∧
      (s.deliver e).buffer = (if s.isFull then s.buffer.tail else s.buffer) ++ [some e]
  /-- A failing one is closed. -/
  dropped : ∀ n ∈ c.numbers key, ∀ s, c.subscription? n = some s → s.broken = true →
    (c.publish key e).2.subscription? n = some s.shut ∧ s.shut.closed = true
  /-- Subscriptions of other keys, and closed ones, are as before. -/
  spared : ∀ n ∉ c.numbers key, (c.publish key e).2.subscription? n = c.subscription? n
  /-- The working ones stay registered, the failing ones are gone. -/
  kept : (c.publish key e).2.numbers key = (c.numbers key).filter c.works
  elsewhere : ∀ key', key' ≠ key → (c.publish key e).2.numbers key' = c.numbers key'

variable {c : Channel}

/-- A publication leaves a subscription open unless it is a failing one of the key. -/
theorem any_isOpen_publish (h : c.Exact) (key key' : Key) (e : Value) (n : Nat) :
    ((c.publish key e).2.subscription? n).any (·.isOpen key') =
      ((c.subscription? n).any (·.isOpen key') && (decide (key' ≠ key) || c.works n)) := by
  rw [subscription?_publish h, works]
  cases hs : c.subscription? n with
  | none => rfl
  | some s =>
    simp only [Option.map_some, Option.any_some]
    by_cases ho : s.isOpen key
    · -- it heard the event
      have hk : s.key = key := by
        simp only [Subscription.isOpen, Bool.and_eq_true, decide_eq_true_eq] at ho
        exact ho.1
      rw [if_pos ho, Subscription.isOpen_hear]
      by_cases hkey : key' = key
      · simp [hkey]
      · simp [Subscription.isOpen, hk, Ne.symm hkey]
    · rw [if_neg ho]
      by_cases hkey : key' = key
      · simp [hkey, ho]
      · simp [hkey]

/-- Where the registry is exact, a publication reaches whom it should. -/
theorem Exact.fansOut (h : c.Exact) (key : Key) (e : Value) : FansOut key e c where
  reached := by
    -- those listed are the failing ones and the working ones
    have hfailed : (deliverAll e (c.numbers key) c).1 =
        (c.numbers key).filter fun n => !c.works n := by
      rw [deliverAll_fst]
      refine List.filter_congr fun n hn => ?_
      obtain ⟨s, hs, -⟩ := h.mem_numbers.1 hn
      simp [works, hs]
    have hsum := (c.numbers key).length_eq_length_filter_add c.works
    have hpub : (c.publish key e).1 =
        (c.numbers key).length - (deliverAll e (c.numbers key) c).1.length := rfl
    rw [hpub, hfailed]
    omega
  delivered n hn s hs hb := by
    obtain ⟨_, ht, hk, hc⟩ := h.mem_numbers.1 hn
    obtain rfl := Option.some.inj (hs.symm.trans ht)
    refine ⟨?_, Subscription.buffer_accept e s⟩
    rw [subscription?_publish h, hs]
    simp [Subscription.isOpen, hk, hc, Subscription.hear, hb]
  dropped n hn s hs hb := by
    obtain ⟨_, ht, hk, hc⟩ := h.mem_numbers.1 hn
    obtain rfl := Option.some.inj (hs.symm.trans ht)
    refine ⟨?_, s.closed_shut⟩
    rw [subscription?_publish h, hs]
    simp [Subscription.isOpen, hk, hc, Subscription.hear, hb]
  spared n hn := by
    rw [subscription?_publish h]
    cases hs : c.subscription? n with
    | none => rfl
    | some s =>
      have ho : s.isOpen key = false := by
        by_contra ho
        exact hn (h.mem_numbers.2 ⟨s, hs, by simpa [Subscription.isOpen] using ho⟩)
      simp [ho]
  kept := by
    rw [(exact_publish h key e).numbers, h.numbers, length_publish, List.filter_filter]
    refine List.filter_congr fun n _ => ?_
    simp [any_isOpen_publish h, Bool.and_comm]
  elsewhere key' hk := by
    rw [(exact_publish h key e).numbers, h.numbers, length_publish]
    refine List.filter_congr fun n _ => ?_
    simp [any_isOpen_publish h, hk]

/-- After every history of a channel, whatever subscriptions began to fail meanwhile: the registry
lists under each key the open ones of the subscriptions made for it, in the order in which they
were made, and a publication reaches the working ones among them and closes the others. -/
theorem fans_out (queueSize : Int) (history : List Act) :
    (after queueSize history).Exact ∧
      (after queueSize history).subscriptions.map (·.key) = subscribed history ∧
      ∀ key e, FansOut key e (after queueSize history) :=
  have h := exact_after queueSize history
  ⟨h, keys_after queueSize history, h.fansOut⟩

/-- The first of three subscriptions fails: it goes, and the one behind it is reached. -/
example :
    let c := after 2 [.subscribe "a", .subscribe "a", .subscribe "b", .sever 0]
    (c.publish "a" (.whole 1)).1 = 1 ∧ (c.publish "a" (.whole 1)).2.numbers "a" = [1] := by
  decide

end Channel

end Kanban
