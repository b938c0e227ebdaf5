import Kanban.Proofs.Channel.History
import Kanban.Service

/-!
# Kanban.Proofs.Channel.Tenants — what keeps accounts apart

Accounts share one channel. The events of an account's board are published under a key made of
both names with a colon between them, and names may hold colons themselves. So two different
pairs of names can make the same key, and this is the only way in which events cross:

* `keyOf_eq_iff` — two pairs make one key iff they are the same or overlap around a colon;
* `run_agree` — a run of the channel, and the run in which nothing is published for some other
  key, give the subscriptions of a key the same;
* `isolated_iff` — a subscription for one pair is isolated from what is published for another
  iff the two do not overlap.
-/

namespace Kanban

namespace Channel.Tenants

/-! ## Keys -/

/-- Two pairs of account and board whose names make the same key: they are equal, or the one reads
the first part of the other's board as part of its account. -/
def Overlap (a b a' b' : String) : Prop :=
  (a = a' ∧ b = b') ∨
    (∃ m, a' = a ++ ":" ++ m ∧ b = m ++ ":" ++ b') ∨
    ∃ m, a = a' ++ ":" ++ m ∧ b' = m ++ ":" ++ b

/-- What follows from reading the longer account as the shorter one and more. -/
theorem split_at_colon {xs bs ds : List Char} (h : ':' :: bs = xs ++ ':' :: ds) :
    (xs = [] ∧ bs = ds) ∨ ∃ ms, xs = ':' :: ms ∧ bs = ms ++ ':' :: ds := by
  cases xs with
  | nil => exact .inl ⟨rfl, (List.cons.inj h).2⟩
  | cons x ms =>
    obtain ⟨hx, hb⟩ := List.cons.inj h
    exact .inr ⟨ms, by rw [← hx], hb⟩

/-- Two pairs of account and board make the same key iff they overlap. -/
theorem keyOf_eq_iff {a b a' b' : String} :
    keyOf a b = keyOf a' b' ↔ Overlap a b a' b' := by
  have hlist : keyOf a b = keyOf a' b' ↔
      a.toList ++ ':' :: b.toList = a'.toList ++ ':' :: b'.toList := by
    simp [keyOf, ← String.toList_inj]
  rw [hlist]
  constructor
  · intro h
    -- one account begins with the other; what is left of it is empty or begins with the colon
    rcases List.append_eq_append_iff.1 h with ⟨xs, ha, hb⟩ | ⟨xs, ha, hb⟩
    · rcases split_at_colon hb with ⟨rfl, hbd⟩ | ⟨ms, rfl, hbd⟩
      · exact .inl ⟨(String.toList_inj.1 (by simpa using ha)).symm, String.toList_inj.1 hbd⟩
      · refine .inr (.inl ⟨String.ofList ms, ?_, ?_⟩)
        · simpa [← String.toList_inj] using ha
        · simpa [← String.toList_inj] using hbd
    · rcases split_at_colon hb with ⟨rfl, hbd⟩ | ⟨ms, rfl, hbd⟩
      · exact .inl ⟨String.toList_inj.1 (by simpa using ha), (String.toList_inj.1 hbd).symm⟩
      · refine .inr (.inr ⟨String.ofList ms, ?_, ?_⟩)
        · simpa [← String.toList_inj] using ha
        · simpa [← String.toList_inj] using hbd
  · rintro (⟨rfl, rfl⟩ | ⟨m, rfl, rfl⟩ | ⟨m, rfl, rfl⟩) <;> simp

/-! ## Histories -/

/-- What happens on a channel that accounts share. -/
inductive Act where
  /-- A subscription is made for an account's board. -/
  | subscribe (account board : String)
  /-- An event is published on an account's board. -/
  | publish (account board : String) (e : Value)
  /-- A subscription is closed. -/
  | close (n : Nat)
  /-- What a subscription has buffered first is read. -/
  | take (n : Nat)
  /-- From now on deliveries to a subscription fail. -/
  | sever (n : Nat)

/-- The channel after an act. -/
def step (c : Channel) : Act → Channel
  | .subscribe a b => (c.subscribe (keyOf a b)).2
  | .publish a b e => (c.publish (keyOf a b) e).2
  | .close n => c.close n
  | .take n => (c.take n).2
  | .sever n => c.update n ({ · with broken := true })

/-- The channel after a history. -/
def run (queueSize : Int) (history : List Act) : Channel := history.foldl step { queueSize }

/-- The pair that an act makes a subscription for. -/
def Act.subscriber? : Act → Option (String × String)
  | .subscribe a b => some (a, b)
  | _ => none

/-- The pairs that subscriptions were made for, by the number of the subscription. -/
def owners (history : List Act) : List (String × String) := history.filterMap Act.subscriber?

/-- Whether an act is anything else than a publication for a pair. -/
def Act.isNotFor (a b : String) : Act → Bool
  | .publish a' b' _ => !(a' = a && b' = b)
  | _ => true

/-- The service subscribes and the engine publishes in the same way. -/
theorem subscribe_service {v : Service} {account : String} {board : Value}
    (h : v.authorize account (v.boardOf board) = true) (s : Server) :
    (v.subscribe account board s).2.channel =
      (s.channel.subscribe (keyOf account (v.boardOf board))).2 := by
  simp [Service.subscribe, h]
  rfl

theorem publish_server (account : String) (board : Key) (e : Value) (s : Server) :
    (s.publish account board e).channel = (s.channel.publish (keyOf account board) e).2 := rfl

/-! ## What an act does to the subscriptions that are there -/

/-- What an act does to subscription `m`, once it was made. -/
def effect (m : Nat) (s : Subscription) : Act → Subscription
  | .subscribe _ _ => s
  | .publish a b e => if s.isOpen (keyOf a b) then s.hear e else s
  | .close n => if m = n then s.shut else s
  | .take n => if m = n then { s with buffer := s.buffer.tail } else s
  | .sever n => if m = n then { s with broken := true } else s

/-- The act on the channel: all that a pair of names matters for is its key. -/
def Act.keyed : Act → Channel.Act
  | .subscribe a b => .subscribe (keyOf a b)
  | .publish a b e => .publish (keyOf a b) e
  | .close n => .close n
  | .take n => .take n
  | .sever n => .sever n

theorem step_eq_act (c : Channel) (x : Act) : step c x = act c x.keyed := by
  cases x <;> rfl

theorem effect_eq_effect (m : Nat) (s : Subscription) (x : Act) :
    effect m s x = Channel.effect m s x.keyed := by
  cases x <;> rfl

theorem key_effect (m : Nat) (s : Subscription) (x : Act) : (effect m s x).key = s.key := by
  rw [effect_eq_effect, Channel.key_effect]

theorem exact_step {c : Channel} (h : c.Exact) (x : Act) : (step c x).Exact := by
  rw [step_eq_act]
  exact exact_act h x.keyed

theorem exact_run (queueSize : Int) (history : List Act) : (run queueSize history).Exact := by
  unfold run
  -- no act needs more of a history than an exact registry
  induction history using List.reverseRecOn with
  | nil => exact exact_new queueSize
  | append_singleton history x ih =>
    rw [List.foldl_append]
    exact exact_step ih x

/-- An act that makes no subscription acts on each subscription by itself. -/
theorem subscription?_step {c : Channel} (h : c.Exact) {x : Act} (hx : x.subscriber? = none)
    (m : Nat) : (step c x).subscription? m = (c.subscription? m).map fun s => effect m s x := by
  have hkey : x.keyed.key? = none := by cases x <;> simp_all [Act.subscriber?, Act.keyed, Act.key?]
  rw [step_eq_act, subscription?_act h hkey]
  simp only [effect_eq_effect]

theorem length_step {c : Channel} (h : c.Exact) {x : Act} (hx : x.subscriber? = none) :
    (step c x).subscriptions.length = c.subscriptions.length :=
  length_of_isSome fun m => by simp [subscription?_step h hx]

/-- Subscriptions are numbered in the order in which they were made, and keep the key of the pair
they were made for. -/
theorem key_run (queueSize : Int) (history : List Act) (n : Nat) :
    ((run queueSize history).subscription? n).map (·.key) =
      ((owners history)[n]?).map fun o => keyOf o.1 o.2 := by
  -- the number of the next subscription is part of the induction
  suffices h : (run queueSize history).subscriptions.length = (owners history).length ∧
      ∀ n, ((run queueSize history).subscription? n).map (·.key) =
        ((owners history)[n]?).map fun o => keyOf o.1 o.2 from h.2 n
  induction history using List.reverseRecOn with
  | nil => simp [run, owners, subscription?]
  | append_singleton history x ih =>
    obtain ⟨hlen, hkey⟩ := ih
    have hrun : run queueSize (history ++ [x]) = step (run queueSize history) x := by
      simp [run]
    have hexact := exact_run queueSize history
    cases hx : x.subscriber? with
    | none =>
      -- no subscription is made, and those that are there keep their keys
      have howners : owners (history ++ [x]) = owners history := by simp [owners, hx]
      rw [hrun, howners]
      refine ⟨(length_step hexact hx).trans hlen, fun n => ?_⟩
      rw [subscription?_step hexact hx, ← hkey, Option.map_map]
      congr 1
      funext s
      exact key_effect n s x
    | some o =>
      obtain ⟨a, b, rfl⟩ : ∃ a b, x = .subscribe a b := by
        cases x <;> simp [Act.subscriber?] at hx
        exact ⟨_, _, rfl⟩
      -- one subscription is made, and it gets the next number
      have howners : owners (history ++ [.subscribe a b]) = owners history ++ [(a, b)] := by
        simp [owners, Act.subscriber?]
      rw [hrun, howners]
      refine ⟨by simp [step, subscribe, hlen], fun n => ?_⟩
      by_cases hn : n = (run queueSize history).subscriptions.length
      · subst hn
        have hnew := subscription?_subscribe_self (keyOf a b) (run queueSize history)
        simp only [step]
        rw [show (run queueSize history).subscriptions.length =
          ((run queueSize history).subscribe (keyOf a b)).1 from rfl, hnew]
        simp [subscribe, hlen]
      · have hold : ((run queueSize history).subscribe (keyOf a b)).2.subscription? n =
            (run queueSize history).subscription? n := subscription?_subscribe_of_ne hn
        simp only [step]
        rw [hold, hkey]
        rw [hlen] at hn
        by_cases hlt : n < (owners history).length
        · simp [List.getElem?_append_left hlt]
        · have hgt : (owners history ++ [(a, b)]).length ≤ n := by simp; omega
          rw [List.getElem?_eq_none hgt, List.getElem?_eq_none (by omega)]

/-! ## Two runs -/

/-- Two channels that give the subscriptions of a key the same. -/
structure Agree (key : Key) (c d : Channel) : Prop where
  left : c.Exact
  right : d.Exact
  size : c.queueSize = d.queueSize
  length : c.subscriptions.length = d.subscriptions.length
  same : ∀ n, (c.subscription? n).filter (·.key = key) = (d.subscription? n).filter (·.key = key)

theorem queueSize_step (c : Channel) (x : Act) : (step c x).queueSize = c.queueSize := by
  cases x <;> simp [step, subscribe, update]

/-- An act keeps two channels in agreement. -/
theorem Agree.step {key : Key} {c d : Channel} (h : Agree key c d) (x : Act) :
    Agree key (step c x) (step d x) where
  left := exact_step h.left x
  right := exact_step h.right x
  size := by rw [queueSize_step, queueSize_step, h.size]
  length := by
    cases hx : x.subscriber? with
    | none => rw [length_step h.left hx, length_step h.right hx, h.length]
    | some o =>
      cases x <;> simp [Act.subscriber?] at hx
      simp [Tenants.step, subscribe, h.length]
  same n := by
    cases hx : x.subscriber? with
    | none =>
      -- both channels change the subscription by the same function, which keeps its key
      have hmap (o : Option Subscription) :
          (o.map fun s => effect n s x).filter (·.key = key) =
            (o.filter (·.key = key)).map fun s => effect n s x := by
        cases o with
        | none => rfl
        | some s => by_cases hk : s.key = key <;> simp [Option.filter, key_effect, hk]
      rw [subscription?_step h.left hx, subscription?_step h.right hx, hmap, hmap, h.same n]
    | some o =>
      obtain ⟨a, b, rfl⟩ : ∃ a b, x = .subscribe a b := by
        cases x <;> simp [Act.subscriber?] at hx
        exact ⟨_, _, rfl⟩
      simp only [Tenants.step]
      by_cases hn : n = (c.subscribe (keyOf a b)).1
      · have hd : (c.subscribe (keyOf a b)).1 = (d.subscribe (keyOf a b)).1 := h.length
        rw [hn, subscription?_subscribe_self, hd, subscription?_subscribe_self, h.size]
      · have hd : n ≠ (d.subscribe (keyOf a b)).1 := fun hd => hn (hd.trans h.length.symm)
        rw [subscription?_subscribe_of_ne hn, subscription?_subscribe_of_ne hd, h.same n]

/-- Publishing under another key keeps a channel in agreement with one where nothing happens. -/
theorem Agree.step_left {key : Key} {c d : Channel} (h : Agree key c d) {a b : String}
    (hk : keyOf a b ≠ key) (e : Value) : Agree key (Tenants.step c (.publish a b e)) d where
  left := exact_step h.left _
  right := h.right
  size := (queueSize_step c _).trans h.size
  length := (length_step h.left rfl).trans h.length
  same n := by
    rw [← h.same n, subscription?_step h.left rfl]
    cases hs : c.subscription? n with
    | none => rfl
    | some s =>
      by_cases hsk : s.key = key
      · have ho : s.isOpen (keyOf a b) = false := by
          simp [Subscription.isOpen, hsk, Ne.symm hk]
        simp [effect, ho]
      · simp [Option.filter, key_effect, hsk]

/-- A run, and the run without what is published for a pair with another key, give the
subscriptions of a key the same. -/
theorem run_agree {key : Key} {a b : String} (hk : keyOf a b ≠ key) (queueSize : Int)
    (history : List Act) :
    Agree key (run queueSize history) (run queueSize (history.filter (·.isNotFor a b))) := by
  induction history using List.reverseRecOn with
  | nil => exact ⟨exact_new _, exact_new _, rfl, rfl, fun _ => rfl⟩
  | append_singleton history x ih =>
    have hrun (l : List Act) : run queueSize (l ++ [x]) = step (run queueSize l) x := by simp [run]
    rw [List.filter_append, hrun]
    by_cases hx : x.isNotFor a b
    · -- the act happens in both runs
      rw [List.filter_singleton, hx, cond_true, hrun]
      exact ih.step x
    · -- the act happens in the left run only
      obtain ⟨e, rfl⟩ : ∃ e, x = .publish a b e := by
        cases x <;> simp [Act.isNotFor] at hx
        obtain ⟨rfl, rfl⟩ := hx
        exact ⟨_, rfl⟩
      simp only [Act.isNotFor, decide_true, Bool.and_self, Bool.not_true, List.filter_singleton,
        cond_false, List.append_nil]
      exact ih.step_left hk e

/-! ## Isolation -/

/-- A subscription made for one pair is isolated from another: after every history, an event
published for the other leaves it as it is, and it is as if nothing had ever been published for
the other. -/
def Isolated (a b a' b' : String) : Prop :=
  ∀ (queueSize : Int) (history : List Act) (n : Nat), (owners history)[n]? = some (a', b') →
    (∀ e, (step (run queueSize history) (.publish a b e)).subscription? n =
      (run queueSize history).subscription? n) ∧
    (run queueSize history).subscription? n =
      (run queueSize (history.filter (·.isNotFor a b))).subscription? n

/-- A subscription for one pair is isolated from what is published for another iff the two do not
overlap. -/
theorem isolated_iff (a b a' b' : String) : Isolated a b a' b' ↔ ¬ Overlap a b a' b' := by
  constructor
  · -- the first event after the first subscription already crosses
    intro h hover
    have hkey := keyOf_eq_iff.2 hover
    have hleak := (h 0 [.subscribe a' b'] 0 rfl).1 .null
    simp [run, step, publish, subscribe, Channel.numbers, Entries.get?, Entries.put, hkey,
      deliverAll, deliver, subscription?, update, wake, Subscription.accept,
      Subscription.isFull] at hleak
  · -- the keys differ, and a subscription keeps the key it was made for
    intro hover queueSize history n hn
    have hkey : keyOf a b ≠ keyOf a' b' := fun h => hover (keyOf_eq_iff.1 h)
    have howner := key_run queueSize history n
    rw [hn] at howner
    obtain ⟨s, hs, hsk⟩ := Option.map_eq_some_iff.1 howner
    refine ⟨fun e => ?_, ?_⟩
    · have ho : s.isOpen (keyOf a b) = false := by
        simp [Subscription.isOpen, hsk, Ne.symm hkey]
      rw [subscription?_step (exact_run queueSize history) rfl, hs]
      simp [effect, ho]
    · have hsame := (run_agree hkey queueSize history).same n
      rw [hs, Option.filter_some_pos (by simpa using hsk)] at hsame
      obtain ⟨hmem, -⟩ := Option.filter_eq_some_iff.1 hsame.symm
      rw [hs, hmem]

/-- With colons in the names an event crosses from account `a` to account `a:b`. -/
theorem buffer_crossed :
    ((run 256 [.subscribe "a:b" "c", .publish "a" "b:c" (.text "moved")]).subscription? 0).map
      (·.buffer) = some [some (.text "moved")] ∧ ¬ ("a" = "a:b" ∧ "b:c" = "c") := by
  decide

end Channel.Tenants

end Kanban
