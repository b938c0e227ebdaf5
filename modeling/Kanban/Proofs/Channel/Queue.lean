import Kanban.Proofs.Channel.History
import Mathlib.Data.List.Sort

/-!
# Kanban.Proofs.Channel.Queue — what a subscription gives its readers

A subscription buffers what is published under its key. Its readers take from the front; a
publication that finds the buffer full drops what stands there. So the events published since the
subscription was made fall into two parts: those that left the buffer, and behind them those that
are still in it. Of the first part, the readers were given some in order; each of the others was
the oldest one when the buffer overran.

* `Opening` — how a subscription came about, and what was published and read since.
* `Opening.Drops` — a publication overran the buffer.
* `Opening.Account` — the two parts, what was read, what was dropped, and the flag.
* `Opening.Account.keep`, `Opening.Account.overflow` — an event arrives.
* `Opening.Account.concat` — one act; `Opening.accounts` — every history that leaves the
  subscription open.
-/

namespace Kanban

namespace Channel

/-! ## Reading -/

/-- The event that an act hands to a reader of subscription `n`. -/
def given? (n : Nat) (c : Channel) : Act → Option Value
  | .take m => if m = n then (c.take m).1.join else none
  | .read m woken =>
    if m = n then
      match (c.read m woken).1 with
      | .event e => some e
      | _ => none
    else none
  | _ => none

/-- The events handed to readers of subscription `n` in the course of a history. -/
def givenAll (n : Nat) : Channel → List Act → List Value
  | _, [] => []
  | c, x :: later => (given? n c x).toList ++ givenAll n (act c x) later

theorem givenAll_concat (n : Nat) (c : Channel) (later : List Act) (x : Act) :
    givenAll n c (later ++ [x]) =
      givenAll n c later ++ (given? n (later.foldl act c) x).toList := by
  induction later generalizing c with
  | nil => simp [givenAll]
  | cons y later ih => simp [givenAll, ih]

/-- The event that an act publishes under a key. -/
def Act.event? (key : Key) : Act → Option Value
  | .publish key' e => if key' = key then some e else none
  | _ => none

/-! ## What an act does to an open subscription -/

/-- An act that takes from subscription `n`. -/
def Act.Takes (n : Nat) (x : Act) : Prop := x = .take n ∨ ∃ woken, x = .read n woken

/-- What an act does to a subscription that it leaves open: an event arrives, the oldest one is
taken, the flag is cleared, or buffer and flag stay. -/
theorem effect_cases {n : Nat} {s : Subscription} {x : Act} (hc : s.closed = false)
    (h : (effect n s x).closed = false) :
    (∃ e, x = .publish s.key e ∧ effect n s x = s.deliver e) ∨
      (x.Takes n ∧ effect n s x = { s with buffer := s.buffer.tail }) ∨
      (x = .clear n ∧ effect n s x = { s with lagged := false }) ∨
      (x.event? s.key = none ∧ (∀ c, given? n c x = none) ∧ x ≠ .clear n ∧
        (effect n s x).buffer = s.buffer ∧ (effect n s x).lagged = s.lagged) := by
  cases x with
  | publish key e =>
    by_cases hk : key = s.key
    · -- the delivery succeeded, since a failing one closes
      subst hk
      have ho : s.isOpen s.key = true := by simp [Subscription.isOpen, hc]
      simp only [effect, ho, if_true] at h ⊢
      by_cases hb : s.broken
      · simp [Subscription.hear, hb] at h
      · exact .inl ⟨e, rfl, by simp [Subscription.hear, hb]⟩
    · have ho : s.isOpen key = false := by simp [Subscription.isOpen, Ne.symm hk]
      exact .inr (.inr (.inr ⟨by simp [Act.event?, hk], fun _ => rfl, by simp, by simp [effect, ho],
        by simp [effect, ho]⟩))
  | take m =>
    by_cases hm : m = n
    · subst hm
      exact .inr (.inl ⟨.inl rfl, by simp [effect]⟩)
    · simp [effect, given?, Act.event?, hm, Ne.symm hm]
  | read m woken =>
    by_cases hm : m = n
    · subst hm
      exact .inr (.inl ⟨.inr ⟨woken, rfl⟩, by simp [effect]⟩)
    · simp [effect, given?, Act.event?, hm, Ne.symm hm]
  | clear m =>
    by_cases hm : m = n
    · subst hm
      exact .inr (.inr (.inl ⟨rfl, by simp [effect]⟩))
    · simp [effect, given?, Act.event?, hm, Ne.symm hm]
  | close m =>
    by_cases hm : n = m
    · simp [effect, hm] at h
    · simp [effect, given?, Act.event?, hm]
  | subscribe key => simp [effect, given?, Act.event?]
  | sever m | wait m reader =>
    refine .inr (.inr (.inr ⟨rfl, fun _ => rfl, by simp, ?_, ?_⟩)) <;>
      simp only [effect] <;> split <;> rfl

/-- Who takes from an open subscription is given the oldest event buffered. -/
theorem given?_of_takes {n : Nat} {c : Channel} {s : Subscription} {x : Act} {kept : List Value}
    (hx : x.Takes n) (hs : c.subscription? n = some s) (hc : s.closed = false)
    (hb : s.buffer = kept.map some) (hnull : .null ∉ kept) : given? n c x = kept.head? := by
  have htake : (c.take n).1 = kept.head?.map some := by
    simp only [take, hs, Subscription.take, hb]
    cases kept <;> rfl
  rcases hx with rfl | ⟨woken, rfl⟩
  · simp only [given?, if_true, htake]
    cases kept <;> rfl
  · -- an open subscription is not over, so the buffer decides
    have ho : (!woken && s.isOver) = false := by simp [Subscription.isOver, hc]
    simp only [given?, if_true, read, hs, ho, Bool.false_eq_true, if_false]
    cases kept with
    | nil =>
      have h0 : (c.take n).1 = none := htake
      rw [show c.take n = ((c.take n).1, (c.take n).2) from rfl, h0]
      rfl
    | cons v kept =>
      have h1 : (c.take n).1 = some (some v) := htake
      have hv : v ≠ .null := fun hv => hnull (hv ▸ List.mem_cons_self)
      rw [show c.take n = ((c.take n).1, (c.take n).2) from rfl, h1]
      cases v <;> first | rfl | exact absurd rfl hv

/-! ## The history of one subscription -/

/-- How a subscription came about: the history of the channel until then, and its key. -/
structure Opening where
  queueSize : Int
  before : List Act
  key : Key

namespace Opening

variable (o : Opening) (later : List Act)

/-- The number of the subscription. -/
def number : Nat := (after o.queueSize o.before).subscriptions.length

/-- The channel, some acts after the subscription was made. -/
def channel : Channel := after o.queueSize (o.before ++ .subscribe o.key :: later)

/-- The subscription, some acts after it was made. -/
def subscription? : Option Subscription := (o.channel later).subscription? o.number

/-- The events published under the key since the subscription was made. -/
def published : List Value := later.filterMap (Act.event? o.key)

/-- The events read from the subscription. -/
def read : List Value := givenAll o.number (o.channel []) later

/-- A publication found as many events buffered as there may be, and dropped the oldest of them,
number `i` of those published; `rest` is what happened since. -/
def Drops (i : Nat) (rest : List Act) : Prop :=
  ∃ p e s, later = p ++ .publish o.key e :: rest ∧ o.subscription? p = some s ∧
    0 < o.queueSize ∧ (s.buffer.length : Int) = o.queueSize ∧
    i + s.buffer.length = (o.published p).length

/-- The account of a subscription with buffer and flag `s`: the events in `gone` left the buffer and
those in `kept` are in it; the events numbered `seen` were read. -/
structure Account (s : Subscription) (gone kept : List Value) (seen : List Nat) : Prop where
  published : o.published later = gone ++ kept
  /-- What is buffered is what was published last. -/
  buffer : s.buffer = kept.map some
  room : 0 < o.queueSize → (kept.length : Int) ≤ o.queueSize
  /-- Events are read in the order in which they were published, none of them twice. -/
  order : seen.Pairwise (· < ·)
  read : (o.read later).map some = seen.map (gone[·]?)
  /-- An event that left the buffer unread was dropped by a publication. -/
  missing : ∀ i < gone.length, i ∉ seen → ∃ rest, o.Drops later i rest
  /-- The flag is set iff there was such a publication since a consumer last cleared it. -/
  lagged : s.lagged = true ↔ ∃ i rest, o.Drops later i rest ∧ .clear o.number ∉ rest

variable {o later}

theorem channel_concat (x : Act) : o.channel (later ++ [x]) = act (o.channel later) x := by
  simp [channel]

theorem foldl_channel : later.foldl act (o.channel []) = o.channel later := by
  simp [channel]

theorem read_concat (x : Act) :
    o.read (later ++ [x]) = o.read later ++ (given? o.number (o.channel later) x).toList := by
  rw [read, givenAll_concat, foldl_channel, ← read]

theorem published_concat (x : Act) :
    o.published (later ++ [x]) = o.published later ++ (x.event? o.key).toList := by
  cases hx : x.event? o.key <;> simp [published, hx]

theorem exact_channel : (o.channel later).Exact := exact_after _ _

/-- At first the subscription is empty. -/
theorem subscription?_nil :
    o.subscription? [] = some { key := o.key, size := o.queueSize } := by
  have hself := subscription?_subscribe_self o.key (after o.queueSize o.before)
  rw [queueSize_after] at hself
  rw [subscription?, channel, after_append]
  exact hself

/-- Each act changes the subscription by itself. -/
theorem subscription?_concat {s : Subscription} (hs : o.subscription? later = some s) (x : Act) :
    o.subscription? (later ++ [x]) = some (effect o.number s x) := by
  rw [subscription?, channel_concat]
  exact subscription?_act_of_some exact_channel x hs

/-- The subscription stays, with its key and its size. -/
theorem exists_subscription (o : Opening) (later : List Act) :
    ∃ s, o.subscription? later = some s ∧ s.key = o.key ∧ s.size = o.queueSize := by
  induction later using List.reverseRecOn with
  | nil => exact ⟨_, subscription?_nil, rfl, rfl⟩
  | append_singleton later x ih =>
    obtain ⟨s, hs, hk, hz⟩ := ih
    exact ⟨_, subscription?_concat hs x, by rw [key_effect, hk], by rw [size_effect, hz]⟩

/-! ## One act -/

/-- A drop was made before an act, or the act made it. -/
theorem drops_concat {x : Act} {i : Nat} {rest : List Act} :
    o.Drops (later ++ [x]) i rest ↔
      (∃ q, rest = q ++ [x] ∧ o.Drops later i q) ∨
        (rest = [] ∧ ∃ e s, x = .publish o.key e ∧ o.subscription? later = some s ∧
          0 < o.queueSize ∧ (s.buffer.length : Int) = o.queueSize ∧
          i + s.buffer.length = (o.published later).length) := by
  constructor
  · rintro ⟨p, e, s, hsplit, hs⟩
    rcases List.eq_nil_or_concat rest with rfl | ⟨q, y, rfl⟩
    · obtain ⟨rfl, hx⟩ := List.append_inj' hsplit rfl
      exact .inr ⟨rfl, e, s, by simpa using hx, hs⟩
    · have hsplit : later ++ [x] = (p ++ .publish o.key e :: q) ++ [y] := by simpa using hsplit
      obtain ⟨hlater, hx⟩ := List.append_inj' hsplit rfl
      obtain rfl : x = y := by simpa using hx
      exact .inl ⟨q, by simp, p, e, s, hlater, hs⟩
  · rintro (⟨q, rfl, p, e, s, rfl, hs⟩ | ⟨rfl, e, s, rfl, hs⟩)
    · exact ⟨p, e, s, by simp, hs⟩
    · exact ⟨later, e, s, rfl, hs⟩

theorem Drops.concat {i : Nat} {rest : List Act} (h : o.Drops later i rest) (x : Act) :
    o.Drops (later ++ [x]) i (rest ++ [x]) :=
  drops_concat.2 (.inl ⟨rest, rfl, h⟩)

/-- Where an act overruns nothing, the flag asks for the same drops as before, unless the act clears
it. -/
theorem flagged_concat {x : Act} (hx : x ≠ .clear o.number)
    (hdrop : ∀ i, ¬ o.Drops (later ++ [x]) i []) :
    (∃ i rest, o.Drops (later ++ [x]) i rest ∧ .clear o.number ∉ rest) ↔
      ∃ i rest, o.Drops later i rest ∧ .clear o.number ∉ rest := by
  constructor
  · rintro ⟨i, rest, hd, hclear⟩
    rcases drops_concat.1 hd with ⟨q, rfl, hq⟩ | ⟨rfl, -⟩
    · exact ⟨i, q, hq, fun h => hclear (List.mem_append_left _ h)⟩
    · exact absurd hd (hdrop i)
  · rintro ⟨i, rest, hd, hclear⟩
    refine ⟨i, rest ++ [x], hd.concat x, fun h => ?_⟩
    rcases List.mem_append.1 h with h | h
    · exact hclear h
    · exact hx (by simpa [eq_comm] using h)

/-- Only a publication under the key drops anything. -/
theorem not_drops_nil {x : Act} (hx : x.event? o.key = none) (i : Nat) :
    ¬ o.Drops (later ++ [x]) i [] := by
  rintro h
  rcases drops_concat.1 h with ⟨q, hq, -⟩ | ⟨-, e, -, rfl, -⟩
  · simp at hq
  · simp [Act.event?] at hx

variable {s : Subscription} {gone kept : List Value} {seen : List Nat}

/-- What was read has left the buffer. -/
theorem Account.lt_length (ha : o.Account later s gone kept seen) {i : Nat} (hi : i ∈ seen) :
    i < gone.length := by
  have hmem : gone[i]? ∈ (o.read later).map some := ha.read ▸ List.mem_map_of_mem hi
  obtain ⟨e, -, he⟩ := List.mem_map.1 hmem
  exact (List.getElem?_eq_some_iff.1 he.symm).1

/-- What was read is what was read, whatever leaves the buffer later. -/
theorem Account.seen_append (ha : o.Account later s gone kept seen) (more : List Value) :
    seen.map ((gone ++ more)[·]?) = (o.read later).map some := by
  rw [ha.read]
  refine List.map_congr_left fun i hi => ?_
  rw [List.getElem?_append_left (ha.lt_length hi)]

/-- An act that publishes nothing, hands out nothing and leaves the buffer alone. -/
theorem Account.rest (ha : o.Account later s gone kept seen) {x : Act} {t : Subscription}
    (hx : x.event? o.key = none) (hgiven : given? o.number (o.channel later) x = none)
    (hb : t.buffer = s.buffer)
    (hlagged : t.lagged = true ↔
      ∃ i rest, o.Drops (later ++ [x]) i rest ∧ .clear o.number ∉ rest) :
    o.Account (later ++ [x]) t gone kept seen where
  published := by rw [published_concat, hx, ha.published]; simp
  buffer := hb.trans ha.buffer
  room := ha.room
  order := ha.order
  read := by rw [read_concat, hgiven, ← ha.read]; simp
  missing i hi hn := by
    obtain ⟨rest, hd⟩ := ha.missing i hi hn
    exact ⟨_, hd.concat x⟩
  lagged := hlagged

/-- The consumer clears the flag. -/
theorem Account.clear (ha : o.Account later s gone kept seen) :
    o.Account (later ++ [.clear o.number]) { s with lagged := false } gone kept seen := by
  refine ha.rest rfl rfl rfl ⟨fun h => by simp at h, ?_⟩
  rintro ⟨i, rest, hd, hclear⟩
  rcases drops_concat.1 hd with ⟨q, rfl, -⟩ | ⟨-, e, -, hx, -⟩
  · simp at hclear
  · simp at hx

/-- The oldest event is taken, if there is one. -/
theorem Account.take (ha : o.Account later s gone kept seen) {x : Act} (hx : x.Takes o.number)
    (hgiven : given? o.number (o.channel later) x = kept.head?) :
    ∃ gone' kept' seen',
      o.Account (later ++ [x]) { s with buffer := s.buffer.tail } gone' kept' seen' := by
  have hevent : x.event? o.key = none := by rcases hx with rfl | ⟨_, rfl⟩ <;> rfl
  have hlagged : s.lagged = true ↔
      ∃ i rest, o.Drops (later ++ [x]) i rest ∧ .clear o.number ∉ rest := by
    have hclear : x ≠ .clear o.number := by rcases hx with rfl | ⟨_, rfl⟩ <;> simp
    exact ha.lagged.trans (flagged_concat hclear (not_drops_nil hevent)).symm
  cases kept with
  | nil =>
    have hb : s.buffer.tail = s.buffer := by rw [ha.buffer]; rfl
    exact ⟨gone, [], seen, ha.rest hevent hgiven hb hlagged⟩
  | cons e kept =>
    refine ⟨gone ++ [e], kept, seen ++ [gone.length], ?_, ?_, ?_, ?_, ?_, ?_, hlagged⟩
    · rw [published_concat, hevent, ha.published]
      simp
    · simp [ha.buffer]
    · intro hsize
      have hroom := ha.room hsize
      simp only [List.length_cons] at hroom
      omega
    · rw [List.pairwise_append]
      refine ⟨ha.order, List.pairwise_singleton _ _, fun i hi j hj => ?_⟩
      obtain rfl := List.mem_singleton.1 hj
      exact ha.lt_length hi
    · rw [read_concat, hgiven, List.map_append, List.map_append, ha.seen_append]
      simp
    · intro i hi hn
      rw [List.mem_append, List.mem_singleton, not_or] at hn
      have hi : i < gone.length := by
        rw [List.length_append, List.length_singleton] at hi
        omega
      obtain ⟨rest, hd⟩ := ha.missing i hi hn.1
      exact ⟨_, hd.concat x⟩

theorem published_publish (o : Opening) (later : List Act) (e : Value) :
    o.published (later ++ [.publish o.key e]) = o.published later ++ [e] := by
  rw [published_concat]
  simp [Act.event?]

theorem read_publish (o : Opening) (later : List Act) (e : Value) :
    o.read (later ++ [.publish o.key e]) = o.read later := by
  rw [read_concat]
  simp [given?]

/-- An event arrives at a full buffer and drops the oldest one. -/
theorem Account.overflow (ha : o.Account later s gone kept seen)
    (hs : o.subscription? later = some s) (hsize : s.size = o.queueSize) (hf : s.isFull = true)
    (e : Value) :
    ∃ v rest, kept = v :: rest ∧
      o.Account (later ++ [.publish o.key e]) (s.deliver e) (gone ++ [v]) (rest ++ [e]) seen := by
  have hbuffer := Subscription.buffer_accept e s
  have hlength : s.buffer.length = kept.length := by rw [ha.buffer, List.length_map]
  -- the buffer holds as many events as there may be, and at least one
  have hfull : 0 < o.queueSize ∧ (s.buffer.length : Int) = o.queueSize := by
    simp only [Subscription.isFull, Bool.and_eq_true, decide_eq_true_eq, hsize] at hf
    have hroom := ha.room hf.1
    exact ⟨hf.1, by omega⟩
  have hlagged : (s.deliver e).lagged = true := by
    simp [Subscription.deliver, Subscription.accept, hf]
  -- the event that goes is the one behind those that went before
  have hdrop : o.Drops (later ++ [.publish o.key e]) gone.length [] :=
    drops_concat.2 (.inr ⟨rfl, e, s, rfl, hs, hfull.1, hfull.2, by
      rw [ha.published, List.length_append, hlength]⟩)
  cases kept with
  | nil => simp only [hlength, List.length_nil] at hfull; omega
  | cons v rest =>
    refine ⟨v, rest, rfl, ?_, ?_, ?_, ha.order, ?_, ?_, ?_⟩
    · rw [published_publish, ha.published]
      simp
    · simp [Subscription.deliver, hbuffer, hf, ha.buffer]
    · intro _
      simp only [hlength, List.length_cons] at hfull
      rw [List.length_append, List.length_singleton]
      omega
    · rw [read_publish, ha.seen_append]
    · intro i hi hn
      rw [List.length_append, List.length_singleton] at hi
      rcases Nat.lt_or_eq_of_le (Nat.le_of_lt_succ hi) with hi | rfl
      · obtain ⟨rest, hd⟩ := ha.missing i hi hn
        exact ⟨_, hd.concat _⟩
      · exact ⟨_, hdrop⟩
    · exact iff_of_true hlagged ⟨_, [], hdrop, List.not_mem_nil⟩

/-- An event arrives at a buffer that has room. -/
theorem Account.keep (ha : o.Account later s gone kept seen)
    (hs : o.subscription? later = some s) (hsize : s.size = o.queueSize) (hf : s.isFull = false)
    (e : Value) :
    o.Account (later ++ [.publish o.key e]) (s.deliver e) gone (kept ++ [e]) seen := by
  have hbuffer := Subscription.buffer_accept e s
  have hlength : s.buffer.length = kept.length := by rw [ha.buffer, List.length_map]
  have hroom (hpos : 0 < o.queueSize) : (s.buffer.length : Int) < o.queueSize := by
    simp only [Subscription.isFull, hsize, hpos, decide_true, Bool.true_and,
      decide_eq_false_iff_not] at hf
    omega
  have hnone (i : Nat) : ¬ o.Drops (later ++ [.publish o.key e]) i [] := by
    intro h
    rcases drops_concat.1 h with ⟨q, hq, -⟩ | ⟨-, _, t, -, ht, hpos, hlen, -⟩
    · simp at hq
    · obtain rfl := Option.some.inj (hs.symm.trans ht)
      have hlt := hroom hpos
      omega
  refine ⟨?_, ?_, ?_, ha.order, ?_, ?_, ?_⟩
  · rw [published_publish, ha.published, List.append_assoc]
  · simp [Subscription.deliver, hbuffer, hf, ha.buffer]
  · intro hpos
    have hlt := hroom hpos
    rw [List.length_append, List.length_singleton]
    omega
  · rw [read_publish, ha.read]
  · intro i hi hn
    obtain ⟨rest, hd⟩ := ha.missing i hi hn
    exact ⟨_, hd.concat _⟩
  · have hlagged : (s.deliver e).lagged = s.lagged := by
      simp [Subscription.deliver, Subscription.accept, hf]
    rw [hlagged, ha.lagged]
    exact (flagged_concat (by simp) hnone).symm

/-- An event arrives, and drops the oldest one if the buffer is full. -/
theorem Account.arrive (ha : o.Account later s gone kept seen)
    (hs : o.subscription? later = some s) (hsize : s.size = o.queueSize) (e : Value) :
    ∃ gone' kept',
      o.Account (later ++ [.publish o.key e]) (s.deliver e) gone' kept' seen := by
  cases hf : s.isFull with
  | true =>
    obtain ⟨v, rest, -, hnext⟩ := ha.overflow hs hsize hf e
    exact ⟨_, _, hnext⟩
  | false => exact ⟨_, _, ha.keep hs hsize hf e⟩

/-- An act that leaves the subscription open keeps its account. -/
theorem Account.concat (ha : o.Account later s gone kept seen)
    (hs : o.subscription? later = some s) (hkey : s.key = o.key) (hsize : s.size = o.queueSize)
    (hnull : .null ∉ o.published later) {x : Act} (hc : (effect o.number s x).closed = false) :
    ∃ gone' kept' seen', o.Account (later ++ [x]) (effect o.number s x) gone' kept' seen' := by
  have hopen : s.closed = false := by
    by_contra h
    rw [closed_effect o.number (by simpa using h) x] at hc
    cases hc
  rcases effect_cases hopen hc with ⟨e, rfl, he⟩ | ⟨hx, he⟩ | ⟨rfl, he⟩ | ⟨hx, hg, hclear, hb, hl⟩
  · rw [he, hkey]
    obtain ⟨gone', kept', h⟩ := ha.arrive hs hsize e
    exact ⟨gone', kept', seen, h⟩
  · rw [he]
    refine ha.take hx (given?_of_takes hx hs hopen ha.buffer fun h => hnull ?_)
    rw [ha.published]
    exact List.mem_append_right _ h
  · rw [he]
    exact ⟨gone, kept, seen, ha.clear⟩
  · rw [hkey] at hx
    refine ⟨gone, kept, seen, ha.rest hx (hg _) hb ?_⟩
    rw [hl, ha.lagged]
    exact (flagged_concat hclear (not_drops_nil hx)).symm

/-! ## Histories -/

/-- At first nothing was published, read or dropped. -/
theorem account_nil (o : Opening) :
    o.Account [] { key := o.key, size := o.queueSize } [] [] [] where
  published := rfl
  buffer := rfl
  room := fun h => h.le
  order := List.Pairwise.nil
  read := rfl
  missing := fun i hi => by simp at hi
  lagged := by
    have hno (i : Nat) (rest : List Act) : ¬ o.Drops [] i rest := by
      rintro ⟨p, e, _, hsplit, -⟩
      simp at hsplit
    simp [hno]

/-- Every history that leaves the subscription open keeps its account. -/
theorem exists_account (hs : o.subscription? later = some s) (hc : s.closed = false)
    (hnull : .null ∉ o.published later) :
    ∃ gone kept seen, o.Account later s gone kept seen := by
  induction later using List.reverseRecOn generalizing s with
  | nil =>
    obtain rfl := Option.some.inj (subscription?_nil.symm.trans hs)
    exact ⟨[], [], [], account_nil o⟩
  | append_singleton later x ih =>
    obtain ⟨t, ht, hkey, hsize⟩ := exists_subscription o later
    obtain rfl : effect o.number t x = s :=
      Option.some.inj ((subscription?_concat ht x).symm.trans hs)
    have hopen : t.closed = false := by
      by_contra h
      rw [closed_effect o.number (by simpa using h) x] at hc
      cases hc
    have hnull' : .null ∉ o.published later := fun h =>
      hnull (published_concat x ▸ List.mem_append_left _ h)
    obtain ⟨gone, kept, seen, ha⟩ := ih ht hopen hnull'
    exact ha.concat ht hkey hsize hnull' hc

/-- Where nothing was dropped, everything that left the buffer was read. -/
theorem Account.whole (ha : o.Account later s gone kept seen)
    (hno : ∀ i rest, ¬ o.Drops later i rest) :
    (o.read later).map some ++ s.buffer = (o.published later).map some := by
  have hseen : seen = List.range gone.length := by
    refine ha.order.eq_of_mem_iff List.pairwise_lt_range fun i => ?_
    rw [List.mem_range]
    refine ⟨ha.lt_length, fun hi => ?_⟩
    by_contra hn
    obtain ⟨rest, hd⟩ := ha.missing i hi hn
    exact hno i rest hd
  have hread : (o.read later).map some = gone.map some := by
    rw [ha.read, hseen]
    refine List.ext_getElem? fun i => ?_
    by_cases hi : i < gone.length <;> simp [hi]
  rw [hread, ha.buffer, ha.published, List.map_append]

/-- A subscription that is open, made at any moment and followed through any history: what it has
buffered is what was published last, no more than fits; what was read was read in the order of
publication; what is missing was dropped from a full buffer, and the flag tells that until it is
cleared; and where nothing was dropped, nothing is missing. Events are records: `null`, which is what
readers get for nothing, is none. -/
theorem accounts (o : Opening) {later : List Act} {s : Subscription}
    (hs : o.subscription? later = some s) (hc : s.closed = false)
    (hnull : .null ∉ o.published later) :
    (∃ gone kept seen, o.Account later s gone kept seen) ∧
      ((o.queueSize ≤ 0 ∨ ∀ i rest, ¬ o.Drops later i rest) →
        (o.read later).map some ++ s.buffer = (o.published later).map some) := by
  obtain ⟨gone, kept, seen, ha⟩ := exists_account hs hc hnull
  refine ⟨⟨gone, kept, seen, ha⟩, fun h => ha.whole ?_⟩
  rcases h with hsize | hno
  · -- a buffer without bound is never full
    rintro i rest ⟨p, e, t, -, -, hpos, -⟩
    omega
  · exact hno

/-- Three events overrun a buffer for two, the flag is cleared, and one of the two that are left is
read. -/
theorem accounts_overrun :
    let o : Opening := { queueSize := 2, before := [], key := .text "a" }
    let later : List Act := [.publish o.key (.whole 1), .publish o.key (.whole 2),
      .publish o.key (.whole 3), .clear 0, .take 0]
    let s : Subscription := { key := o.key, size := 2, buffer := [some (.whole 3)] }
    o.subscription? later = some s ∧ s.closed = false ∧ .null ∉ o.published later ∧
      o.read later = [.whole 2] ∧ ∃ gone kept seen, o.Account later s gone kept seen := by
  intro o later s
  have hs : o.subscription? later = some s := by rfl
  have hnull : .null ∉ o.published later := by decide
  exact ⟨hs, rfl, hnull, by decide, (accounts o hs rfl hnull).1⟩

end Opening

end Channel

end Kanban
