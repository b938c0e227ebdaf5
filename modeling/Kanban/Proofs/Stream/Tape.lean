import Kanban.Hub
import Kanban.Proofs.Channel.Tenants

/-!
# Kanban.Proofs.Stream.Tape — what a stream sends and what waits

A stream on a board has a subscription of its own, and a forwarder that sends what the subscription
buffers. Events come in bursts: between two turns of the forwarder any number of them may be
published, and a turn may break off at any event. The subscription drops the oldest event when its
buffer is full, and it is marked as lagged then, but the forwarder never looks at the mark.

* `Tape` — what a stream has sent and what waits to be sent.
* `Session`, `Step` — a stream that is open, and what happens meanwhile; `runAll` on the hub,
  `recordAll` on the tape.
* `Account` — the books of a tape: nothing is lost but by an overrun, and that is never told;
  `account_recordAll`, `lagged_recordAll`.
-/

namespace Kanban

open Http.Stream (Message)

/-- Whether a value is a board event: an object that says which. -/
def Value.isEvent : Value → Bool
  | .object r => Entries.has "event" r
  | _ => false

theorem Value.exists_object {e : Value} (h : e.isEvent = true) : ∃ r, e = .object r := by
  cases e with
  | object r => exact ⟨r, rfl⟩
  | _ => cases h

namespace Http.Stream

/-- The board event in a message. -/
def Message.event? : Message → Option Value
  | .json v => if v.isEvent then some v else none
  | _ => none

/-- What a stream sends in the normal course of things: that it is open, board events, and answers to
the texts of its client. None of it tells that an event was missed. -/
def Message.IsRoutine (m : Message) : Prop :=
  m = .accept ∨ (∃ e, m = .json e ∧ e.isEvent = true) ∨ m = pong ∨ m = errorMessage "Invalid JSON"

theorem event?_pong : pong.event? = none := rfl

theorem event?_errorMessage (text : String) : (errorMessage text).event? = none := rfl

theorem Message.event?_json {e : Value} (h : e.isEvent = true) : (Message.json e).event? = some e :=
  if_pos h

/-- A text that can be read is answered by a pong, by an error, or not at all. -/
theorem reply_cases {text : String} {r : Option Message} (h : reply text = .ok r) {m : Message}
    (hm : m ∈ r) : m = pong ∨ m = errorMessage "Invalid JSON" := by
  unfold reply at h
  split at h
  · obtain rfl := Except.ok.inj h
    split at hm
    · exact .inl (Option.some.inj hm).symm
    · cases hm
  · obtain rfl := Except.ok.inj h
    exact .inr (Option.some.inj hm).symm
  · obtain rfl := Except.ok.inj h
    exact .inr (Option.some.inj hm).symm
  · cases h
  · cases h

end Http.Stream

namespace Stream

open Http.Stream

/-! ## Tapes -/

/-- What a stream has sent, and the events that wait to be sent. -/
structure Tape where
  waiting : List Value := []
  /-- Whether an event was dropped. -/
  lagged : Bool := false
  sent : List Message := []

namespace Tape

/-- An event is published, and the oldest that waits is dropped if there is no room. -/
def publish (size : Int) (e : Value) (t : Tape) : Tape :=
  if 0 < size ∧ size ≤ t.waiting.length then
    { t with waiting := t.waiting.tail ++ [e], lagged := true }
  else { t with waiting := t.waiting ++ [e] }

theorem sent_publish (size : Int) (e : Value) (t : Tape) : (t.publish size e).sent = t.sent := by
  unfold publish
  split <;> rfl

theorem mem_publish {size : Int} {e f : Value} {t : Tape} (hf : f ∈ (t.publish size e).waiting) :
    f ∈ t.waiting ∨ f = e := by
  unfold publish at hf
  split at hf
  · rcases List.mem_append.1 hf with hf | hf
    · exact .inl (List.mem_of_mem_tail hf)
    · exact .inr (List.mem_singleton.1 hf)
  · simpa using hf

/-- Some events are sent, at most as many as the limit. -/
def turn (limit : Nat) (t : Tape) : Tape :=
  { t with waiting := t.waiting.drop limit, sent := t.sent ++ (t.waiting.take limit).map .json }

/-- A text of the client is answered. -/
def answer (r : Option Message) (t : Tape) : Tape := { t with sent := t.sent ++ r.toList }

/-- The events that were sent. -/
def forwarded (t : Tape) : List Value := t.sent.filterMap Message.event?

end Tape

/-! ## Sessions -/

/-- A stream of a site: its subscription, the job that forwards, the key of its board, and how many
events are buffered. -/
structure Session where
  site : Nat
  number : Nat
  stream : Nat
  job : Nat
  key : Key
  size : Int

/-- What happens while a stream is open. -/
inductive Step where
  /-- Something happens to the channel of the site. -/
  | channel (x : Channel.Tenants.Act)
  /-- The client sends a text. -/
  | text (s : String)
  /-- The forwarder runs, and is suspended after some events. -/
  | turn (limit : Nat) (woken : Bool)

namespace Session

variable (w : Session)

/-- The forwarder. -/
def task : Job where
  task := .forward w.stream
  site := w.site
  subscription := w.number

/-- The event that a step publishes on the board of the stream. -/
def event? : Step → Option Value
  | .channel (.publish a b e) => if Channel.keyOf a b = w.key then some e else none
  | _ => none

/-- The events that are published on the board of the stream. -/
def published (steps : List Step) : List Value := steps.filterMap w.event?

/-- Steps that leave the stream open: no one else reads or closes its subscription or makes its
deliveries fail, what is published are board events, and texts can be read. -/
def Admits : Step → Prop
  | .channel (.publish _ _ e) => e.isEvent = true
  | .channel (.close m) | .channel (.take m) | .channel (.sever m) => m ≠ w.number
  | .channel (.subscribe _ _) => True
  | .text s => ∃ r, reply s = .ok r
  | .turn _ _ => True

/-- The hub after a step. -/
def step (h : Hub) : Step → Hub
  | .channel x => (Hub.onChannel w.site (fun c => ((), Channel.Tenants.step c x)) h).2
  | .text s => (Hub.receive w.stream s h).2
  | .turn limit woken => (Hub.run w.job w.task limit woken h).2

/-- The hub after some steps. -/
def runAll (steps : List Step) (h : Hub) : Hub := steps.foldl w.step h

/-- The tape after a step. -/
def record (t : Tape) : Step → Tape
  | .channel x => match w.event? (.channel x) with
    | some e => t.publish w.size e
    | none => t
  | .text s => match reply s with
    | .ok r => t.answer r
    | .error _ => t
  | .turn limit _ => t.turn limit

/-- The tape after some steps. -/
def recordAll (steps : List Step) (t : Tape) : Tape := steps.foldl w.record t

/-- Whether an event is published for which there is no room, where some events wait at first: whether
between the turns more events come than are taken, by more than the buffer holds. -/
def overruns : Nat → List Step → Bool
  | _, [] => false
  | n, .turn limit _ :: rest => overruns (n - limit) rest
  | n, x :: rest =>
    match w.event? x with
    | some _ => if 0 < w.size ∧ w.size ≤ n then true else overruns (n + 1) rest
    | none => overruns n rest

end Session

variable {w : Session} {t : Tape}

/-! ## The books of a tape -/

/-- Whatever happens on the channel, nothing is sent, and what waits are board events. -/
theorem record_channel {x : Channel.Tenants.Act} (hx : w.Admits (.channel x))
    (ht : ∀ e ∈ t.waiting, e.isEvent = true) :
    (w.record t (.channel x)).sent = t.sent ∧
      ∀ e ∈ (w.record t (.channel x)).waiting, e.isEvent = true := by
  unfold Session.record
  dsimp only
  split
  · rename_i e he
    -- it is a publication of a board event
    obtain ⟨a, b, rfl⟩ : ∃ a b, x = .publish a b e := by
      cases x with
      | publish a b f =>
        simp only [Session.event?, Option.ite_none_right_eq_some, Option.some.injEq] at he
        exact ⟨a, b, by rw [he.2]⟩
      | _ => cases he
    refine ⟨Tape.sent_publish _ _ _, fun f hf => ?_⟩
    rcases Tape.mem_publish hf with hf | rfl
    · exact ht f hf
    · exact hx
  · exact ⟨rfl, ht⟩

namespace Tape

theorem forwarded_turn (limit : Nat) {t : Tape} (ht : ∀ e ∈ t.waiting, e.isEvent = true) :
    (t.turn limit).forwarded ++ (t.turn limit).waiting = t.forwarded ++ t.waiting := by
  have hsent : ((t.waiting.take limit).map Message.json).filterMap Message.event? =
      t.waiting.take limit := by
    rw [List.filterMap_map]
    refine (List.filterMap_congr fun e he => ?_).trans List.filterMap_some
    exact Message.event?_json (ht e (List.mem_of_mem_take he))
  simp only [forwarded, turn, List.filterMap_append, hsent, List.append_assoc, List.take_append_drop]

theorem forwarded_answer {s : String} {r : Option Message} (hr : reply s = .ok r) (t : Tape) :
    (t.answer r).forwarded = t.forwarded := by
  have hnone : r.toList.filterMap Message.event? = [] := by
    refine List.filterMap_eq_nil_iff.2 fun m hm => ?_
    rcases reply_cases hr (Option.mem_toList.1 hm) with rfl | rfl
    · exact event?_pong
    · exact event?_errorMessage _
  simp [forwarded, answer, List.filterMap_append, hnone]

/-- The books of a tape on which some events were published: it told nothing out of the ordinary, and
the events that it sent and has waiting are those published, or fewer once it lagged. -/
structure Account (published : List Value) (t : Tape) : Prop where
  routine : ∀ m ∈ t.sent, m.IsRoutine
  events : ∀ e ∈ t.waiting, e.isEvent = true
  whole : t.lagged = false → t.forwarded ++ t.waiting = published
  short : t.lagged = true → (t.forwarded ++ t.waiting).length < published.length

variable {published : List Value}

/-- No more is sent and waits than was published. -/
theorem Account.length_le (ha : Account published t) :
    (t.forwarded ++ t.waiting).length ≤ published.length := by
  cases hl : t.lagged with
  | false => exact (ha.whole hl) ▸ Nat.le_refl _
  | true => exact Nat.le_of_lt (ha.short hl)

theorem Account.publish (ha : Account published t) {e : Value} (he : e.isEvent = true) (size : Int) :
    Account (published ++ [e]) (t.publish size e) := by
  have hevents : ∀ f ∈ (t.publish size e).waiting, f.isEvent = true := by
    intro f hf
    rcases Tape.mem_publish hf with hf | rfl
    · exact ha.events f hf
    · exact he
  have hroutine := Tape.sent_publish size e t ▸ ha.routine
  refine ⟨hroutine, hevents, ?_, ?_⟩
  · intro hl
    unfold Tape.publish at hl ⊢
    split at hl
    · cases hl
    · rename_i hroom
      rw [if_neg hroom, ← ha.whole hl]
      exact (List.append_assoc _ _ _).symm
  · intro hl
    unfold Tape.publish at hl ⊢
    split at hl
    · -- the oldest event is dropped, and there is one
      rename_i hfull
      have hle := ha.length_le
      rw [if_pos hfull]
      simp only [forwarded, List.length_append, List.length_tail, List.length_singleton] at hle ⊢
      omega
    · rename_i hroom
      have hshort := ha.short hl
      rw [if_neg hroom]
      simp only [forwarded, List.length_append, List.length_singleton] at hshort ⊢
      omega

/-- Books stay in order when nothing is published and what is sent and waits are the same events. -/
theorem Account.congr (ha : Account published t) {t' : Tape} (hlag : t'.lagged = t.lagged)
    (hbooks : t'.forwarded ++ t'.waiting = t.forwarded ++ t.waiting)
    (hroutine : ∀ m ∈ t'.sent, m.IsRoutine) (hevents : ∀ e ∈ t'.waiting, e.isEvent = true) :
    Account published t' where
  routine := hroutine
  events := hevents
  whole := fun hl => hbooks.trans (ha.whole (hlag ▸ hl))
  short := fun hl => hbooks ▸ ha.short (hlag ▸ hl)

theorem Account.turn (ha : Account published t) (limit : Nat) :
    Account published (t.turn limit) := by
  refine ha.congr rfl (forwarded_turn limit ha.events) (fun m hm => ?_)
    fun e he => ha.events e (List.mem_of_mem_drop he)
  rcases List.mem_append.1 hm with hm | hm
  · exact ha.routine m hm
  · obtain ⟨e, he, rfl⟩ := List.mem_map.1 hm
    exact .inr (.inl ⟨e, rfl, ha.events e (List.mem_of_mem_take he)⟩)

theorem Account.answer (ha : Account published t) {s : String} {r : Option Message}
    (hr : reply s = .ok r) : Account published (t.answer r) := by
  refine ha.congr rfl (congrArg (· ++ t.waiting) (forwarded_answer hr t)) (fun m hm => ?_) ha.events
  rcases List.mem_append.1 hm with hm | hm
  · exact ha.routine m hm
  · exact .inr (.inr (reply_cases hr (Option.mem_toList.1 hm)))

/-- Each step keeps the books. -/
theorem Account.record (ha : Account published t) {x : Step} (hx : w.Admits x) :
    Account (published ++ (w.event? x).toList) (w.record t x) := by
  cases x with
  | channel x =>
    cases x with
    | publish a b e =>
      by_cases hk : Channel.keyOf a b = w.key
      · simp only [Session.record, Session.event?, hk, if_true, Option.toList_some]
        exact ha.publish hx w.size
      · simpa [Session.record, Session.event?, hk] using ha
    | subscribe a b | close m | take m | sever m => simpa [Session.record, Session.event?] using ha
  | text s =>
    obtain ⟨r, hr⟩ := hx
    simp only [Session.record, hr, Session.event?, Option.toList_none, List.append_nil]
    exact ha.answer hr
  | turn limit woken =>
    simp only [Session.record, Session.event?, Option.toList_none, List.append_nil]
    exact ha.turn limit

theorem account_recordAll (ha : Account published t) {steps : List Step}
    (hx : ∀ x ∈ steps, w.Admits x) :
    Account (published ++ w.published steps) (w.recordAll steps t) := by
  induction steps generalizing published t with
  | nil => simpa [Session.published, Session.recordAll] using ha
  | cons x rest ih =>
    have hstep := ih (ha.record (hx x List.mem_cons_self)) fun y hy =>
      hx y (List.mem_cons_of_mem _ hy)
    have hpublished : w.published (x :: rest) = (w.event? x).toList ++ w.published rest := by
      cases he : w.event? x <;> simp [Session.published, he]
    rw [hpublished, ← List.append_assoc]
    exact hstep

/-- A tape lags iff a burst overran the buffer. -/
theorem lagged_recordAll (steps : List Step) (t : Tape) :
    (w.recordAll steps t).lagged = (t.lagged || w.overruns t.waiting.length steps) := by
  induction steps generalizing t with
  | nil => simp [Session.recordAll, Session.overruns]
  | cons x rest ih =>
    have hcons : w.recordAll (x :: rest) t = w.recordAll rest (w.record t x) := rfl
    rw [hcons, ih]
    cases x with
    | channel x =>
      cases he : w.event? (.channel x) with
      | none => simp [Session.record, Session.overruns, he]
      | some e =>
        by_cases hf : 0 < w.size ∧ w.size ≤ t.waiting.length
        · simp [Session.record, Session.overruns, he, Tape.publish, hf]
        · simp [Session.record, Session.overruns, he, Tape.publish, hf]
    | text s =>
      have hrec : (w.record t (.text s)).lagged = t.lagged ∧
          (w.record t (.text s)).waiting = t.waiting := by
        simp only [Session.record]
        split <;> exact ⟨rfl, rfl⟩
      simp [hrec, Session.overruns, Session.event?]
    | turn limit woken => simp [Session.record, Session.overruns, Tape.turn]

end Tape

end Stream

end Kanban
