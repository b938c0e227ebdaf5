import Kanban.Channel
import Kanban.Proofs.Entries
import Mathlib.Data.List.Nodup

/-!
# Kanban.Proofs.Channel.Registry — who an event is handed to

The registry of a channel lists, under each key, exactly the open subscriptions of the key, in
the order in which they were made. Every operation keeps this, so the effect of an operation on
one subscription can be said without the registry: a subscription hears what is published under
its key while it is open, and nothing else.

* `Exact` — what the registry holds; `exact_new`, `exact_subscribe`, `exact_close`,
  `exact_publish`, `exact_update` keep it.
* `subscription?_close` — closing shuts one subscription.
* `subscription?_publish` — publishing is heard by the open subscriptions of the key.
-/

namespace Kanban

namespace Subscription

/-- Whether a subscription is an open one of a key. -/
def isOpen (key : Key) (s : Subscription) : Bool := s.key = key && !s.closed

/-- What a delivery does: the event is buffered, and the first reader in line is woken. -/
def deliver (e : Value) (s : Subscription) : Subscription :=
  { s.accept e with waiting := s.waiting.tail }

/-- What closing does: a reader that waits at an empty buffer is woken by the end mark. -/
def shut (s : Subscription) : Subscription :=
  if s.closed then s
  else if s.buffer.isEmpty then
    { s with closed := true, buffer := [none], waiting := s.waiting.tail }
  else { s with closed := true }

/-- What an event published under its key does to an open subscription: it is delivered, or the
subscription is closed because the delivery failed. -/
def hear (e : Value) (s : Subscription) : Subscription :=
  if s.broken then s.shut else s.deliver e

@[simp] theorem key_accept (e : Value) (s : Subscription) : (s.accept e).key = s.key := by
  unfold accept
  split <;> rfl

@[simp] theorem closed_accept (e : Value) (s : Subscription) :
    (s.accept e).closed = s.closed := by
  unfold accept
  split <;> rfl

@[simp] theorem broken_accept (e : Value) (s : Subscription) :
    (s.accept e).broken = s.broken := by
  unfold accept
  split <;> rfl

theorem waiting_accept (e : Value) (s : Subscription) : (s.accept e).waiting = s.waiting := by
  unfold accept
  split <;> rfl

@[simp] theorem key_shut (s : Subscription) : s.shut.key = s.key := by
  unfold shut
  split <;> [rfl; split <;> rfl]

@[simp] theorem closed_shut (s : Subscription) : s.shut.closed = true := by
  unfold shut
  split <;> [assumption; split <;> rfl]

theorem shut_shut (s : Subscription) : s.shut.shut = s.shut := by
  rw [shut, if_pos s.closed_shut]

@[simp] theorem key_hear (e : Value) (s : Subscription) : (s.hear e).key = s.key := by
  unfold hear
  split
  · exact key_shut s
  · exact key_accept e s

/-- What handing over an event does to any subscription: only an open one that works takes it. -/
def offered (e : Value) (s : Subscription) : Subscription :=
  if s.broken || s.closed then s else s.deliver e

theorem broken_offered (e : Value) (s : Subscription) : (s.offered e).broken = s.broken := by
  unfold offered
  split
  · rfl
  · exact broken_accept e s

end Subscription

namespace Channel

variable {c : Channel}

/-- The registry lists under each key the open subscriptions of the key in the order in which they
were made, and keeps no key without subscriptions. -/
structure Exact (c : Channel) : Prop where
  numbers : ∀ key, c.numbers key =
    (List.range c.subscriptions.length).filter fun n => (c.subscription? n).any (·.isOpen key)
  keys : (Entries.keys c.registry).Nodup
  filled : ∀ e ∈ c.registry, e.2 ≠ []

/-- A number is listed under a key iff it is that of an open subscription of the key. -/
theorem Exact.mem_numbers (h : c.Exact) {key : Key} {n : Nat} :
    n ∈ c.numbers key ↔ ∃ s, c.subscription? n = some s ∧ s.key = key ∧ s.closed = false := by
  rw [h.numbers, List.mem_filter, List.mem_range]
  constructor
  · rintro ⟨-, hs⟩
    obtain ⟨s, hs, ho⟩ := (Option.any_eq_true _ _).1 hs
    exact ⟨s, hs, by simpa [Subscription.isOpen] using ho⟩
  · rintro ⟨s, hs, hk, hc⟩
    obtain ⟨hn, _⟩ := List.getElem?_eq_some_iff.1 hs
    exact ⟨hn, by simp [hs, Subscription.isOpen, hk, hc]⟩

theorem Exact.nodup_numbers (h : c.Exact) (key : Key) : (c.numbers key).Nodup := by
  rw [h.numbers]
  exact List.nodup_range.filter _

theorem length_of_isSome {c' : Channel}
    (h : ∀ m, (c'.subscription? m).isSome = (c.subscription? m).isSome) :
    c'.subscriptions.length = c.subscriptions.length := by
  -- one channel would have a subscription at the length of the other
  refine Nat.le_antisymm (Nat.le_of_not_lt fun hlt => ?_) (Nat.le_of_not_lt fun hlt => ?_)
  · have hm := h c.subscriptions.length
    simp [subscription?, hlt] at hm
  · have hm := h c'.subscriptions.length
    simp [subscription?, hlt] at hm

theorem exact_new (queueSize : Int) : Exact { queueSize } where
  numbers := by simp [Channel.numbers]
  keys := List.nodup_nil
  filled := by simp

/-! ## Changing one subscription -/

theorem subscription?_update (n m : Nat) (f : Subscription → Subscription) (c : Channel) :
    (c.update n f).subscription? m =
      if m = n then (c.subscription? m).map f else c.subscription? m := by
  simp only [subscription?, update, List.getElem?_modify, eq_comm (a := n)]
  split <;> simp

@[simp] theorem length_update (n : Nat) (f : Subscription → Subscription) (c : Channel) :
    (c.update n f).subscriptions.length = c.subscriptions.length := by
  simp [update]

/-- A channel with the same registry and, at each number, an equally open subscription is as exact. -/
theorem Exact.congr {c' : Channel} (h : c.Exact) (hr : c'.registry = c.registry)
    (hl : c'.subscriptions.length = c.subscriptions.length)
    (ho : ∀ key m, (c'.subscription? m).any (·.isOpen key) = (c.subscription? m).any (·.isOpen key)) :
    c'.Exact where
  numbers key := by
    have hn : c'.numbers key = c.numbers key := by rw [Channel.numbers, Channel.numbers, hr]
    simp only [hn, hl, ho, h.numbers key]
  keys := hr ▸ h.keys
  filled := hr ▸ h.filled

@[simp] theorem subscription?_quiet (n : Nat) (c : Channel) :
    c.quiet.subscription? n = c.subscription? n := rfl

@[simp] theorem woken_quiet (c : Channel) : c.quiet.woken = [] := rfl

theorem Exact.quiet (h : c.Exact) : c.quiet.Exact := ⟨h.numbers, h.keys, h.filled⟩

/-- Whatever leaves key and openness of a subscription alone keeps the registry exact. -/
theorem exact_update (h : c.Exact) (n : Nat) {f : Subscription → Subscription}
    (hk : ∀ s, (f s).key = s.key) (hc : ∀ s, (f s).closed = s.closed) : (c.update n f).Exact := by
  refine h.congr rfl (length_update n f c) fun key m => ?_
  rw [subscription?_update]
  by_cases hm : m = n
  · cases hs : c.subscription? m <;> simp [hm, Subscription.isOpen, hk, hc]
  · simp [hm]

/-! ## Waking readers -/

theorem subscription?_wake (n m : Nat) (c : Channel) :
    (c.wake n).subscription? m =
      if m = n then (c.subscription? m).map fun s => { s with waiting := s.waiting.tail }
      else c.subscription? m := by
  unfold wake
  cases hs : c.subscription? n with
  | none =>
    by_cases hm : m = n
    · simp [hm, hs]
    · simp [hm]
  | some s =>
    cases hw : s.waiting with
    | nil =>
      -- nobody waits, and there is no reader to drop
      simp only [Option.map_some, hw]
      by_cases hm : m = n
      · simp only [hm, hs, if_true, Option.map_some, hw, List.tail_nil, Option.some.injEq]
        rw [← hw]
      · simp [hm]
    | cons r rest =>
      -- the first in line is dropped
      simp only [Option.map_some, hw]
      have hu := subscription?_update n m (fun s => { s with waiting := rest }) c
      by_cases hm : m = n
      · subst hm
        simp only [hs, if_true, Option.map_some] at hu ⊢
        rw [hw, List.tail_cons]
        exact hu
      · simp only [hm, if_false] at hu ⊢
        exact hu

@[simp] theorem registry_wake (n : Nat) (c : Channel) : (c.wake n).registry = c.registry := by
  unfold wake
  split <;> rfl

@[simp] theorem length_wake (n : Nat) (c : Channel) :
    (c.wake n).subscriptions.length = c.subscriptions.length := by
  unfold wake
  split <;> simp [update]

theorem exact_wake (h : c.Exact) (n : Nat) : (c.wake n).Exact := by
  refine h.congr (registry_wake n c) (length_wake n c) fun key m => ?_
  rw [subscription?_wake]
  by_cases hm : m = n
  · cases hs : c.subscription? m <;> simp [hm, Subscription.isOpen]
  · simp [hm]

/-! ## Subscribing -/

@[simp] theorem subscription?_subscribe_self (key : Key) (c : Channel) :
    (c.subscribe key).2.subscription? (c.subscribe key).1 =
      some { key, size := c.queueSize } := by
  simp [subscribe, subscription?]

theorem subscription?_subscribe_of_ne {key : Key} {m : Nat} (hm : m ≠ (c.subscribe key).1) :
    (c.subscribe key).2.subscription? m = c.subscription? m := by
  have hm' : m ≠ c.subscriptions.length := hm
  simp only [subscribe, subscription?, List.getElem?_append]
  split
  · rfl
  · -- beyond the old subscriptions there is the new one and nothing else
    rename_i hlt
    have hgt : m - c.subscriptions.length ≠ 0 := by omega
    obtain ⟨k, hk⟩ := Nat.exists_eq_succ_of_ne_zero hgt
    simp [hk, List.getElem?_eq_none (Nat.le_of_not_lt hlt)]

theorem numbers_subscribe (key key' : Key) (c : Channel) :
    (c.subscribe key).2.numbers key' =
      if key' = key then c.numbers key ++ [c.subscriptions.length] else c.numbers key' := by
  by_cases h : key' = key
  · simp [h, Channel.numbers, subscribe]
  · simp [h, Channel.numbers, subscribe, Entries.get?_put_of_ne h]

theorem exact_subscribe (h : c.Exact) (key : Key) : (c.subscribe key).2.Exact where
  numbers key' := by
    have hlen : (c.subscribe key).2.subscriptions.length = c.subscriptions.length + 1 := by
      simp [subscribe]
    have hold : (List.range c.subscriptions.length).filter
          (fun n => ((c.subscribe key).2.subscription? n).any (·.isOpen key')) =
        c.numbers key' := by
      rw [h.numbers]
      refine List.filter_congr fun n hn => ?_
      rw [subscription?_subscribe_of_ne (Nat.ne_of_lt (List.mem_range.1 hn))]
    have hnew : (c.subscribe key).2.subscription? c.subscriptions.length =
        some { key, size := c.queueSize } := subscription?_subscribe_self key c
    rw [numbers_subscribe, hlen, List.range_succ, List.filter_append, hold]
    -- the new number comes last in the list of its own key
    by_cases hk : key' = key
    · simp [hk, hnew, Subscription.isOpen]
    · simp [hk, hnew, Subscription.isOpen, Ne.symm hk]
  keys := Entries.nodup_put h.keys key _
  filled := by
    intro e he
    rcases (Entries.mem_put h.keys).1 he with rfl | ⟨he, -⟩
    · simp
    · exact h.filled e he

/-! ## Closing -/

theorem numbers_unregister (n : Nat) (key key' : Key) (c : Channel) :
    (c.unregister n key).numbers key' =
      if key' = key then (c.numbers key).erase n else c.numbers key' := by
  by_cases he : ((c.numbers key).erase n).isEmpty
  · -- the last of its key: the key goes with it
    have hr : (c.unregister n key).registry = Entries.erase key c.registry := if_pos he
    rw [Channel.numbers, hr, Entries.get?_erase]
    by_cases hk : key' = key
    · simp [hk, List.isEmpty_iff.1 he]
    · simp [hk, Channel.numbers]
  · have hr : (c.unregister n key).registry =
        Entries.put key ((c.numbers key).erase n) c.registry := if_neg he
    rw [Channel.numbers, hr]
    by_cases hk : key' = key
    · simp [hk]
    · simp [hk, Entries.get?_put_of_ne hk, Channel.numbers]

/-- Closing shuts one subscription. -/
theorem subscription?_close (n m : Nat) (c : Channel) :
    (c.close n).subscription? m =
      if m = n then (c.subscription? m).map Subscription.shut else c.subscription? m := by
  unfold close
  cases hs : c.subscription? n with
  | none =>
    by_cases hm : m = n
    · simp [hm, hs]
    · simp [hm]
  | some s =>
    by_cases hc : s.closed
    · by_cases hm : m = n
      · simp [hc, hm, hs, Subscription.shut]
      · simp [hc, hm]
    · -- striking a number off the registry touches no subscription
      have hu (f : Subscription → Subscription) (k : Nat) :
          (((c.update n f).unregister n s.key)).subscription? k = (c.update n f).subscription? k := rfl
      by_cases hb : s.buffer.isEmpty
      · simp only [hc, Bool.false_eq_true, if_false, hb, if_true, subscription?_wake,
          subscription?_update, hu]
        by_cases hm : m = n
        · simp [hm, hs, Subscription.shut, hc, hb]
        · simp [hm]
      · simp only [hc, Bool.false_eq_true, if_false, hb, hu, subscription?_update]
        by_cases hm : m = n
        · simp [hm, hs, Subscription.shut, hc, hb]
        · simp [hm]

/-- Striking a subscription off the registry as it is closed keeps the registry exact. -/
theorem exact_unregister (h : c.Exact) {n : Nat} {s : Subscription}
    (hs : c.subscription? n = some s) :
    ((c.update n ({ · with closed := true })).unregister n s.key).Exact where
  numbers key' := by
    have hlen : ((c.update n ({ · with closed := true })).unregister n
        s.key).subscriptions.length = c.subscriptions.length := length_update n _ c
    have hsub (m : Nat) : ((c.update n ({ · with closed := true })).unregister n
        s.key).subscription? m =
          if m = n then (c.subscription? m).map ({ · with closed := true })
          else c.subscription? m := subscription?_update n m _ c
    have hnum (k : Key) : (c.update n ({ · with closed := true })).numbers k = c.numbers k := rfl
    rw [numbers_unregister, hlen, hnum, hnum]
    by_cases hk : key' = s.key
    · -- the key of the subscription: it alone goes
      rw [if_pos hk, (h.nodup_numbers _).erase_eq_filter, h.numbers, List.filter_filter]
      refine List.filter_congr fun m _ => ?_
      rw [hsub, hk]
      by_cases hm : m = n
      · simp [hm, hs, Subscription.isOpen]
      · simp [hm]
    · -- any other key: the subscription was not listed there
      rw [if_neg hk, h.numbers]
      refine List.filter_congr fun m _ => ?_
      rw [hsub]
      by_cases hm : m = n
      · simp [hm, hs, Subscription.isOpen, Ne.symm hk]
      · simp [hm]
  keys := by
    unfold unregister
    dsimp only
    split
    · exact Entries.nodup_erase h.keys _
    · exact Entries.nodup_put h.keys _ _
  filled := by
    intro e he
    unfold unregister at he
    dsimp only at he
    split at he
    · exact h.filled e (List.mem_of_mem_filter he)
    · rename_i hn
      rcases (Entries.mem_put h.keys).1 he with rfl | ⟨he, -⟩
      · exact fun hnil => hn (List.isEmpty_iff.2 hnil)
      · exact h.filled e he

theorem exact_close (h : c.Exact) (n : Nat) : (c.close n).Exact := by
  unfold close
  cases hs : c.subscription? n with
  | none => exact h
  | some s =>
    -- neither the end mark nor waking a reader opens the subscription again
    have hu := exact_unregister h hs
    by_cases hc : s.closed
    · simpa [hc] using h
    · by_cases hb : s.buffer.isEmpty
      · simp only [hc, Bool.false_eq_true, if_false, hb, if_true]
        exact exact_wake (exact_update (f := ({ · with buffer := [none] })) hu n (fun _ => rfl)
          (fun _ => rfl)) n
      · simpa only [hc, Bool.false_eq_true, if_false, hb] using hu

theorem exact_foldl_close (ns : List Nat) (h : c.Exact) :
    (ns.foldl (fun c n => c.close n) c).Exact := by
  induction ns generalizing c with
  | nil => exact h
  | cons n ns ih => exact ih (exact_close h n)

/-- Closing several subscriptions shuts each of them. -/
theorem subscription?_foldl_close (ns : List Nat) (m : Nat) (c : Channel) :
    (ns.foldl (fun c n => c.close n) c).subscription? m =
      if m ∈ ns then (c.subscription? m).map Subscription.shut else c.subscription? m := by
  induction ns generalizing c with
  | nil => simp
  | cons n ns ih =>
    rw [List.foldl_cons, ih, subscription?_close]
    by_cases hm : m = n
    · by_cases hns : m ∈ ns
      · -- closed again by a later one of the list: it is shut as before
        simp only [hm ▸ hns, hm, if_true, List.mem_cons, true_or, Option.map_map]
        congr 1
        funext s
        exact s.shut_shut
      · simp [hm, hm ▸ hns]
    · simp [hm]

/-! ## Publishing -/

theorem subscription?_deliver (e : Value) (n m : Nat) (c : Channel) :
    (c.deliver e n).2.subscription? m =
      if m = n then (c.subscription? m).map (·.offered e) else c.subscription? m := by
  unfold deliver
  cases hs : c.subscription? n with
  | none =>
    by_cases hm : m = n
    · simp [hm, hs]
    · simp [hm]
  | some s =>
    by_cases hb : s.broken
    · by_cases hm : m = n
      · simp [hb, hm, hs, Subscription.offered]
      · simp [hb, hm]
    · by_cases hc : s.closed
      · by_cases hm : m = n
        · simp [hb, hc, hm, hs, Subscription.offered]
        · simp [hb, hc, hm]
      · simp only [hb, hc, Bool.false_eq_true, if_false, subscription?_wake, subscription?_update]
        by_cases hm : m = n
        · simp [hm, hs, Subscription.offered, hb, hc, Subscription.deliver, Subscription.waiting_accept]
        · simp [hm]

theorem deliver_fst (e : Value) (n : Nat) (c : Channel) :
    (c.deliver e n).1 = !(c.subscription? n).any (·.broken) := by
  unfold deliver
  cases hs : c.subscription? n with
  | none => rfl
  | some s =>
    by_cases hb : s.broken
    · simp [hb]
    · by_cases hc : s.closed <;> simp [hb, hc]

theorem exact_deliver (h : c.Exact) (e : Value) (n : Nat) : (c.deliver e n).2.Exact := by
  unfold deliver
  cases hs : c.subscription? n with
  | none => exact h
  | some s =>
    by_cases hb : s.broken
    · simpa [hb] using h
    · by_cases hc : s.closed
      · simpa [hb, hc] using h
      · simp only [hb, hc, Bool.false_eq_true, if_false]
        exact exact_wake (exact_update h n (Subscription.key_accept e)
          (Subscription.closed_accept e)) n

theorem exact_deliverAll (e : Value) (ns : List Nat) (h : c.Exact) :
    (deliverAll e ns c).2.Exact := by
  induction ns generalizing c with
  | nil => exact h
  | cons n ns ih => exact ih (exact_deliver h e n)

/-- Deliveries to distinct subscriptions, as each of them sees it. -/
theorem subscription?_deliverAll (e : Value) {ns : List Nat} (hns : ns.Nodup) (m : Nat)
    (c : Channel) :
    (deliverAll e ns c).2.subscription? m =
      if m ∈ ns then (c.subscription? m).map (·.offered e) else c.subscription? m := by
  induction ns generalizing c with
  | nil => simp [deliverAll]
  | cons n ns ih =>
    rw [List.nodup_cons] at hns
    -- the numbers are distinct, so no later delivery reaches the first of them
    simp only [deliverAll]
    rw [ih hns.2, subscription?_deliver]
    by_cases hm : m = n
    · simp [hm, hns.1]
    · simp [hm]

/-- The deliveries that fail are those to broken subscriptions. -/
theorem deliverAll_fst (e : Value) (ns : List Nat) (c : Channel) :
    (deliverAll e ns c).1 = ns.filter fun m => (c.subscription? m).any (·.broken) := by
  induction ns generalizing c with
  | nil => rfl
  | cons n ns ih =>
    -- a delivery breaks no subscription and mends none
    have hb (m : Nat) : ((c.deliver e n).2.subscription? m).any (·.broken) =
        (c.subscription? m).any (·.broken) := by
      rw [subscription?_deliver]
      split
      · cases c.subscription? m <;> simp [Subscription.broken_offered]
      · rfl
    simp only [deliverAll, deliver_fst, ih, hb, List.filter_cons]
    cases (c.subscription? n).any (·.broken) <;> rfl

theorem exact_publish (h : c.Exact) (key : Key) (e : Value) : (c.publish key e).2.Exact :=
  exact_foldl_close _ (exact_deliverAll e _ h)

/-- An event published under a key is heard by the open subscriptions of the key and by no other. -/
theorem subscription?_publish (h : c.Exact) (key : Key) (e : Value) (m : Nat) :
    (c.publish key e).2.subscription? m =
      (c.subscription? m).map fun s => if s.isOpen key then s.hear e else s := by
  have hpub : (c.publish key e).2 = ((deliverAll e (c.numbers key) c).1).foldl
      (fun c n => c.close n) (deliverAll e (c.numbers key) c).2 := rfl
  rw [hpub, subscription?_foldl_close, subscription?_deliverAll e (h.nodup_numbers key)]
  simp only [deliverAll_fst, List.mem_filter]
  cases hs : c.subscription? m with
  | none => simp
  | some s =>
    by_cases ho : s.isOpen key
    · -- listed, and so it is offered the event, and shut if that failed
      have hko : s.key = key ∧ s.closed = false := by simpa [Subscription.isOpen] using ho
      have hmem : m ∈ c.numbers key := h.mem_numbers.2 ⟨s, hs, hko⟩
      by_cases hb : s.broken
      · simp [hmem, hb, ho, Subscription.hear, Subscription.offered]
      · simp [hmem, hb, ho, Subscription.hear, Subscription.offered, hko.2]
    · -- not listed, and so it is left alone
      have hmem : m ∉ c.numbers key := by
        rw [h.mem_numbers]
        rintro ⟨t, ht, hk, hc⟩
        obtain rfl : s = t := Option.some.inj (hs.symm.trans ht)
        exact ho (by simp [Subscription.isOpen, hk, hc])
      simp [hmem, ho]

theorem isSome_deliverAll (e : Value) (ns : List Nat) (m : Nat) (c : Channel) :
    ((deliverAll e ns c).2.subscription? m).isSome = (c.subscription? m).isSome := by
  induction ns generalizing c with
  | nil => rfl
  | cons n ns ih =>
    refine (ih (c.deliver e n).2).trans ?_
    rw [subscription?_deliver]
    split <;> simp

/-- Publishing opens no subscription. -/
theorem length_publish (key : Key) (e : Value) (c : Channel) :
    (c.publish key e).2.subscriptions.length = c.subscriptions.length := by
  refine length_of_isSome fun m => ?_
  refine (congrArg Option.isSome (subscription?_foldl_close _ m _)).trans ?_
  rw [← isSome_deliverAll e (c.numbers key) m c]
  split <;> simp

/-! ## Taking -/

/-- Taking removes the oldest of what one subscription has buffered. -/
theorem subscription?_take (n m : Nat) (c : Channel) :
    (c.take n).2.subscription? m =
      if m = n then (c.subscription? m).map fun s => { s with buffer := s.buffer.tail }
      else c.subscription? m := by
  unfold take
  cases hs : c.subscription? n with
  | none =>
    by_cases hm : m = n
    · simp [hm, hs]
    · simp [hm]
  | some s =>
    simp only [subscription?_update]
    by_cases hm : m = n
    · subst hm
      cases hb : s.buffer <;> simp [hs, Subscription.take, hb]
      rw [← hb]
    · simp [hm]

theorem exact_take (h : c.Exact) (n : Nat) : (c.take n).2.Exact := by
  have hlen : (c.take n).2.subscriptions.length = c.subscriptions.length := by
    unfold take
    split <;> simp [update]
  refine h.congr (by unfold take; split <;> rfl) hlen fun key m => ?_
  rw [subscription?_take]
  by_cases hm : m = n
  · cases hs : c.subscription? m <;> simp [hm, Subscription.isOpen]
  · simp [hm]

/-! ## The size of new buffers -/

@[simp] theorem queueSize_wake (n : Nat) (c : Channel) : (c.wake n).queueSize = c.queueSize := by
  unfold wake
  split <;> rfl

@[simp] theorem queueSize_close (n : Nat) (c : Channel) : (c.close n).queueSize = c.queueSize := by
  unfold close
  split
  · rfl
  · dsimp only
    split
    · rfl
    · split
      · exact queueSize_wake _ _
      · rfl

@[simp] theorem queueSize_publish (key : Key) (e : Value) (c : Channel) :
    (c.publish key e).2.queueSize = c.queueSize := by
  have hdeliver (n : Nat) (c : Channel) : (c.deliver e n).2.queueSize = c.queueSize := by
    unfold deliver
    split
    · rfl
    · split <;> [rfl; split <;> [rfl; exact queueSize_wake _ _]]
  have hall (ns : List Nat) (c : Channel) : (deliverAll e ns c).2.queueSize = c.queueSize := by
    induction ns generalizing c with
    | nil => rfl
    | cons n ns ih => exact (ih _).trans (hdeliver n c)
  have hclose (ns : List Nat) (c : Channel) :
      (ns.foldl (fun c n => c.close n) c).queueSize = c.queueSize := by
    induction ns generalizing c with
    | nil => rfl
    | cons n ns ih => exact (ih _).trans (queueSize_close n c)
  -- closing comes after all deliveries
  exact (hclose _ _).trans (hall _ c)

@[simp] theorem queueSize_take (n : Nat) (c : Channel) : (c.take n).2.queueSize = c.queueSize := by
  unfold take
  split <;> rfl

end Channel

end Kanban
