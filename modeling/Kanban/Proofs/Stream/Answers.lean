import Kanban.Proofs.Json.Values
import Kanban.Proofs.Stream.Delivery

/-!
# Kanban.Proofs.Stream.Answers — what the texts of a client are answered with

A stream reads the texts of its client one after the other while its forwarder sends board events in
between. A text is answered by a pong, by an error or not at all, as it is due. But a text that cannot
be read to its first fault, because of a whole number of too many digits or of too many brackets inside
each other, ends the stream: nothing more is answered then. However a stream ends, its subscription is
closed and struck off the registry, and nothing reaches it any more.

* `due`, `isLegible` — what a text should be answered with, and whether it can be read at all.
* `Channel.Shut`, `Shut.act` — a closed subscription stays closed and hears nothing.
* `Over`, `over_endStream`, `Over.runAll` — a stream that has ended stays so.
* `texts_answered_iff` — texts are answered as they are due up to the first that is not legible, and
  the stream stays open iff there is none.
-/

namespace Kanban

open Http.Stream (Message)

/-! ## Closed subscriptions -/

namespace Channel

/-- A subscription that is closed and has no more buffered than it kept. -/
structure Shut (n : Nat) (kept : List Buffered) (c : Channel) : Prop where
  exact : c.Exact
  closed : ∃ u, c.subscription? n = some u ∧ u.closed = true ∧ u.buffer <:+ kept

variable {n : Nat} {kept : List Buffered} {c : Channel}

/-- A closed subscription is not listed under any key. -/
theorem Shut.notMem_numbers (h : Shut n kept c) (key : Key) : n ∉ c.numbers key := by
  obtain ⟨u, hu, hclosed, -⟩ := h.closed
  rw [h.exact.mem_numbers]
  rintro ⟨s, hs, -, hopen⟩
  obtain rfl : u = s := Option.some.inj (hu.symm.trans hs)
  rw [hclosed] at hopen
  cases hopen

theorem Shut.quiet (h : Shut n kept c) : Shut n kept c.quiet := ⟨h.exact.quiet, h.closed⟩

/-- Publishing does nothing to a closed subscription. -/
theorem Shut.publish (h : Shut n kept c) (key : Key) (e : Value) :
    (c.publish key e).2.subscription? n = c.subscription? n := by
  obtain ⟨u, hu, hclosed, -⟩ := h.closed
  rw [subscription?_publish h.exact, hu]
  simp [Subscription.isOpen, hclosed]

/-- A closed subscription gets nothing to buffer. -/
theorem buffer_effect {u : Subscription} (hclosed : u.closed = true) (x : Act) :
    (effect n u x).buffer <:+ u.buffer := by
  cases x with
  | subscribe => exact List.suffix_rfl
  | publish key e =>
    have hopen : u.isOpen key = false := by simp [Subscription.isOpen, hclosed]
    rw [effect, if_neg (by rw [hopen]; exact Bool.false_ne_true)]
  -- Closing again does not put the end mark a second time.
  | close m =>
    have hshut : u.shut = u := if_pos hclosed
    rw [effect, hshut, ite_self]
  | take m | read m woken =>
    simp only [effect]
    split
    · exact List.tail_suffix _
    · exact List.suffix_rfl
  | sever m | wait m reader | clear m =>
    simp only [effect]
    split <;> exact List.suffix_rfl

/-- Whatever happens on the channel, a closed subscription stays so. -/
theorem Shut.act (h : Shut n kept c) (x : Act) : Shut n kept (act c x) := by
  obtain ⟨u, hu, hclosed, hbuffer⟩ := h.closed
  refine ⟨exact_act h.exact x, ?_⟩
  cases hkey : x.key? with
  | some key =>
    -- a subscription that is made gets a number of its own
    obtain rfl : x = .subscribe key := by cases x <;> simp_all [Act.key?]
    have hlt : n < c.subscriptions.length := (List.getElem?_eq_some_iff.1 hu).1
    exact ⟨u, (subscription?_subscribe_of_ne (Nat.ne_of_lt hlt)).trans hu, hclosed, hbuffer⟩
  | none =>
    refine ⟨effect n u x, ?_, closed_effect n hclosed x, (buffer_effect hclosed x).trans hbuffer⟩
    rw [subscription?_act h.exact hkey, hu]
    rfl

end Channel

namespace Stream

open Http.Stream

/-! ## Texts -/

deriving instance DecidableEq for Message

/-- The answer that a text is due: a pong if it is a JSON object that says it is a ping, none if it is
another object, and an error if it is anything else. -/
def due (text : String) : Option Message :=
  match Json.parse text with
  | .ok (.object r) => if Entries.getD "type" r .null = .text "ping" then some pong else none
  | _ => some (errorMessage "Invalid JSON")

/-- Whether a text can be read to its end or to its first fault: up to there no whole number has too many
digits, and brackets are not too deep inside each other. -/
def isLegible (text : String) : Bool :=
  match Json.parse text with
  | .error .longNumeral | .error .tooDeep => false
  | _ => true

/-- A legible text is answered as it is due, and on any other the stream breaks down. -/
theorem reply_eq (text : String) :
    if isLegible text then reply text = .ok (due text) else ∃ f, reply text = .error f := by
  unfold isLegible reply due
  cases hp : Json.parse text with
  | ok v => cases v <;> rfl
  | error p =>
    cases p with
    | malformed => rfl
    | longNumeral | tooDeep => exact ⟨_, rfl⟩

theorem event?_due {text : String} {m : Message} (hm : m ∈ due text) : m.event? = none := by
  unfold due at hm
  split at hm
  · split at hm
    · obtain rfl := Option.some.inj hm
      rfl
    · cases hm
  · obtain rfl := Option.some.inj hm
    rfl

/-- The text of a step. -/
def Step.text? : Step → Option String
  | .text s => some s
  | _ => none

/-- The texts that a client sends. -/
def textsOf (steps : List Step) : List String := steps.filterMap Step.text?

/-- What was sent other than board events. -/
def answers (sent : List Message) : List Message := sent.filter fun m => m.event?.isNone

theorem answers_append (sent more : List Message) :
    answers (sent ++ more) = answers sent ++ answers more := List.filter_append _ _

/-- Steps of a stream: no one else reads or closes its subscription or makes its deliveries fail, and
what is published are board events. The texts may be any. -/
def Session.Arises (w : Session) : Step → Prop
  | .text _ => True
  | x => w.Admits x

variable {w : Session} {t : Tape} {h : Hub} {steps : List Step}

/-! ## Streams at work -/

/-- A step that arises is admitted if its text is legible. -/
theorem admits_of_arises {x : Step} (hx : w.Arises x) (hlegible : ∀ s ∈ x.text?, isLegible s = true) :
    w.Admits x := by
  cases x with
  | channel | turn => exact hx
  | text s =>
    have hreply := reply_eq s
    rw [if_pos (hlegible s rfl)] at hreply
    exact ⟨_, hreply⟩

/-- A step of an open stream sends the answer that its text is due, and otherwise board events only. -/
theorem answers_record {x : Step} (hx : w.Admits x) (ht : ∀ e ∈ t.waiting, e.isEvent = true)
    (hlegible : ∀ s ∈ x.text?, isLegible s = true) :
    answers (w.record t x).sent = answers t.sent ++ (x.text?.bind due).toList := by
  cases x with
  | channel x => simp [(record_channel hx ht).1, Step.text?]
  | text s =>
    have hreply := reply_eq s
    rw [if_pos (hlegible s rfl)] at hreply
    have hdue : answers (due s).toList = (due s).toList :=
      List.filter_eq_self.2 fun m hm => by rw [event?_due (Option.mem_toList.1 hm)]; rfl
    simp only [Session.record, hreply, Tape.answer, Step.text?, Option.bind_some]
    rw [answers_append, hdue]
  | turn limit woken =>
    -- A turn sends what waits, and what waits are events, never answers.
    have hevents : answers ((t.waiting.take limit).map .json) = [] := by
      refine List.filter_eq_nil_iff.2 fun m hm => ?_
      obtain ⟨e, he, rfl⟩ := List.mem_map.1 hm
      rw [Message.event?_json (ht e (List.mem_of_mem_take he))]
      exact Bool.false_ne_true
    simp only [Session.record, Tape.turn, Step.text?, Option.bind_none]
    rw [answers_append, hevents]
    rfl

/-! ## Streams that have ended -/

/-- A stream that has ended: nothing more is sent on it, and its subscription is closed and buffers no
more than it kept. -/
structure Over (w : Session) (sent : List Message) (kept : List Buffered) (h : Hub) : Prop where
  stream : ∃ r, h.streams[w.stream]? = some r ∧ r.opened = false ∧ r.outbox = sent
  subscription : ∃ s, h.sites[w.site]? = some s ∧ s.channel.Shut w.number kept

variable {sent : List Message} {kept : List Buffered}

theorem Over.onChannel (ho : Over w sent kept h) {α : Type} {f : Channel → α × Channel}
    (hf : ∀ c, ∃ x, (f c).2 = Channel.act c x) : Over w sent kept (Hub.onChannel w.site f h).2 := by
  obtain ⟨s, hs, hshut⟩ := ho.subscription
  obtain ⟨x, hx⟩ := hf s.channel.quiet
  rw [onChannel_apply hs]
  obtain ⟨hlt, -⟩ := List.getElem?_eq_some_iff.1 hs
  exact ⟨ho.stream, _, List.getElem?_set_self hlt, hx ▸ hshut.quiet.act x⟩

theorem Over.post (ho : Over w sent kept h) (m : Message) :
    Over w sent kept (Hub.post w.stream m h).2 := by
  obtain ⟨r, hr, hopened, hsent⟩ := ho.stream
  refine ⟨⟨r, ?_, hopened, hsent⟩, ho.subscription⟩
  rw [streams_post, hr, Option.map_some, if_neg (by rw [hopened]; exact Bool.false_ne_true)]

/-- A forwarder that goes on may find what is left in the buffer, but sends nothing. -/
theorem Over.run (ho : Over w sent kept h) (limit : Nat) (woken : Bool) :
    Over w sent kept (Hub.run w.job w.task limit woken h).2 := by
  induction limit generalizing h woken with
  | zero => exact ho
  | succ limit ih =>
    have hread : Over w sent kept (Hub.onChannel w.site (·.read w.number woken) h).2 :=
      ho.onChannel fun c => ⟨.read w.number woken, rfl⟩
    rw [w.run_task]
    generalize Hub.onChannel w.site (·.read w.number woken) h = q at hread
    obtain ⟨r, h'⟩ := q
    rcases r with e | _ | _
    · exact ih (hread.post _) false
    · exact ⟨hread.stream, hread.subscription⟩
    · exact hread.onChannel fun c => ⟨.wait w.number w.job, rfl⟩

/-- Nothing that happens begins it again. -/
theorem Over.step (ho : Over w sent kept h) (x : Step) : Over w sent kept (w.step h x) := by
  cases x with
  | channel x => exact ho.onChannel fun c => ⟨x.keyed, Channel.Tenants.step_eq_act c x⟩
  | turn limit woken => exact ho.run limit woken
  | text s =>
    -- The stream is closed: the text is not even looked at.
    obtain ⟨r, hr, hopened, -⟩ := ho.stream
    have hstep : w.step h (.text s) = h := by
      simp [Session.step, Hub.receive, bind, StateT.bind, get, getThe, MonadStateOf.get, StateT.get,
        pure, hr, hopened]
      rfl
    rw [hstep]
    exact ho

theorem Over.runAll (ho : Over w sent kept h) (steps : List Step) :
    Over w sent kept (w.runAll steps h) := by
  induction steps generalizing h with
  | nil => exact ho
  | cons x rest ih => exact ih (ho.step x)

/-! ## How a stream ends -/

/-- A stream belongs to its subscription. -/
def Bound (w : Session) (h : Hub) : Prop :=
  ∃ r, h.streams[w.stream]? = some r ∧ r.site = w.site ∧ r.subscription = some w.number

theorem Bound.post (hb : Bound w h) (m : Message) : Bound w (Hub.post w.stream m h).2 := by
  obtain ⟨r, hr, hsite, hnumber⟩ := hb
  refine ⟨_, (streams_post w.stream m h).trans (congrArg _ hr), ?_⟩
  dsimp only
  split <;> exact ⟨hsite, hnumber⟩

theorem Bound.run (hb : Bound w h) (limit : Nat) (woken : Bool) :
    Bound w (Hub.run w.job w.task limit woken h).2 := by
  induction limit generalizing h woken with
  | zero => exact hb
  | succ limit ih =>
    have hread : Bound w (Hub.onChannel w.site (·.read w.number woken) h).2 := hb
    rw [w.run_task]
    generalize Hub.onChannel w.site (·.read w.number woken) h = q at hread
    obtain ⟨r, h'⟩ := q
    rcases r with e | _ | _
    · exact ih (hread.post _) false
    · exact hread
    · exact hread

/-- A legible text is answered as it is due. -/
theorem step_text {s : String} (hl : Live w t h) (hs : isLegible s = true) :
    w.step h (.text s) = match due s with
      | none => h
      | some m => (Hub.post w.stream m h).2 := by
  obtain ⟨r, hr, hopened, -⟩ := hl.stream
  have hreply := reply_eq s
  rw [if_pos hs] at hreply
  cases hd : due s <;>
    simp [Session.step, Hub.receive, bind, StateT.bind, get, getThe, MonadStateOf.get, StateT.get,
      pure, hr, hopened, hreply, hd]
  rfl

/-- On any other text the stream ends. -/
theorem step_illegible {s : String} (hl : Live w t h) (hs : isLegible s = false) :
    w.step h (.text s) = (Hub.endStream w.stream h).2 := by
  obtain ⟨r, hr, hopened, -⟩ := hl.stream
  have hreply := reply_eq s
  rw [if_neg (by rw [hs]; exact Bool.false_ne_true)] at hreply
  obtain ⟨f, hf⟩ := hreply
  simp [Session.step, Hub.receive, bind, StateT.bind, get, getThe, MonadStateOf.get, StateT.get,
    pure, hr, hopened, hf]

theorem Bound.step (hb : Bound w h) (hl : Live w t h) {x : Step}
    (hlegible : ∀ s ∈ x.text?, isLegible s = true) : Bound w (w.step h x) := by
  cases x with
  | channel x => exact hb
  | turn limit woken => exact hb.run limit woken
  | text s =>
    rw [step_text hl (hlegible s rfl)]
    cases due s with
    | none => exact hb
    | some m => exact hb.post m

/-- When a stream ends, its subscription is closed, and what was sent stays as it is. -/
theorem over_endStream (hl : Live w t h) (hb : Bound w h) :
    ∃ kept, Over w t.sent kept (Hub.endStream w.stream h).2 := by
  obtain ⟨r, hr, hsite, hnumber⟩ := hb
  obtain ⟨r', hr', -, hsent⟩ := hl.stream
  obtain rfl : r = r' := Option.some.inj (hr.symm.trans hr')
  obtain ⟨s, u, hs, hexact, hu, -⟩ := hl.subscription
  let h' : Hub := { h with streams := h.streams.modify w.stream ({ · with opened := false }) }
  have hs' : h'.sites[w.site]? = some s := hs
  have hclose : (Hub.endStream w.stream h).2 =
      (Hub.onChannel w.site (fun c => ((), c.close w.number)) h').2 := by
    simp [h', Hub.endStream, bind, StateT.bind, get, getThe, MonadStateOf.get, StateT.get, pure, hr,
      hsite, hnumber, modify, modifyGet, MonadStateOf.modifyGet, StateT.modifyGet]
  obtain ⟨hlt, -⟩ := List.getElem?_eq_some_iff.1 hs
  rw [hclose, onChannel_apply hs']
  -- Closing may add the end mark to the buffer, so what is kept is read off after it.
  refine ⟨u.shut.buffer, ⟨{ r with opened := false }, ?_, rfl, hsent⟩, _,
    List.getElem?_set_self hlt, Channel.exact_close hexact.quiet _, u.shut, ?_, u.closed_shut,
    List.suffix_rfl⟩
  · simp [h', hr]
  · rw [Channel.subscription?_close, if_pos rfl, Channel.subscription?_quiet, hu]
    rfl

/-! ## Runs -/

theorem textsOf_cons (x : Step) (rest : List Step) :
    textsOf (x :: rest) = x.text?.toList ++ textsOf rest := by
  cases hx : x.text? <;> simp [textsOf, hx]

/-- Texts are answered as they are due up to the first that is not legible; there the stream ends. -/
theorem run_texts (hl : Live w t h) (hb : Bound w h) (hsteps : ∀ x ∈ steps, w.Arises x) :
    ∃ t', answers t'.sent = answers t.sent ++
        ((textsOf steps).takeWhile isLegible).filterMap due ∧
      ((∀ s ∈ textsOf steps, isLegible s = true) →
        Live w t' (w.runAll steps h) ∧ Bound w (w.runAll steps h)) ∧
      ∀ s ∈ textsOf steps, isLegible s = false → ∃ kept, Over w t'.sent kept (w.runAll steps h) := by
  induction steps generalizing t h with
  | nil => exact ⟨t, (List.append_nil _).symm, fun _ => ⟨hl, hb⟩, nofun⟩
  | cons x rest ih =>
    have hrest : ∀ y ∈ rest, w.Arises y := fun y hy => hsteps y (List.mem_cons_of_mem _ hy)
    rw [textsOf_cons]
    by_cases hlegible : ∀ s ∈ x.text?, isLegible s = true
    · have hadmits := admits_of_arises (hsteps x List.mem_cons_self) hlegible
      have hanswer := answers_record hadmits hl.events hlegible
      obtain ⟨t', hsent, hopen, hover⟩ := ih (hl.step hadmits) (hb.step hl hlegible) hrest
      refine ⟨t', ?_, fun hall => hopen fun s hs => hall s (List.mem_append_right _ hs),
        fun s hs hillegible => ?_⟩
      · rw [hsent, hanswer, List.append_assoc]
        cases hx : x.text? with
        | none => rfl
        | some s => cases hd : due s <;> simp [hlegible s hx, hd]
      · rcases List.mem_append.1 hs with hs | hs
        · rw [hlegible s (Option.mem_toList.1 hs)] at hillegible
          cases hillegible
        · exact hover s hs hillegible
    · obtain ⟨s, hs, hillegible⟩ : ∃ s, x.text? = some s ∧ isLegible s = false := by
        simpa using hlegible
      obtain rfl : x = .text s := by
        cases x <;> simp_all [Step.text?]
      obtain ⟨kept, hover⟩ := over_endStream hl hb
      rw [← step_illegible hl hillegible] at hover
      refine ⟨t, ?_, fun hall => ?_, fun _ _ _ => ⟨kept, hover.runAll rest⟩⟩
      · simp [Step.text?, hillegible]
      · rw [hall s List.mem_cons_self] at hillegible
        cases hillegible

theorem bound_opened {headers : List (String × String)} {target : Http.Target} {board : String}
    {s : Site} (hboard : Http.Route.streamBoard? target.path = some board)
    (hauth : h.service.authorize (accountOf headers target) (h.service.boardOf (.text board)) = true)
    (hsite : h.sites[h.current]? = some s) :
    Bound (Session.opening headers target board s h) (Hub.openStream headers target h).2 := by
  rw [openStream_apply hboard hauth hsite]
  exact ⟨_, List.getElem?_concat_length, rfl, rfl⟩

/-- Whether a stream is open. -/
def isOpen (stream : Nat) (h : Hub) : Bool := (h.streams[stream]?).any (·.opened)

theorem Live.isOpen (hl : Live w t h) : isOpen w.stream h = true := by
  obtain ⟨r, hr, hopened, -⟩ := hl.stream
  simp [Stream.isOpen, hr, hopened]

theorem Live.sentOn (hl : Live w t h) : sentOn w.stream h = t.sent := by
  obtain ⟨r, hr, -, hsent⟩ := hl.stream
  simp [Stream.sentOn, hr, hsent]

theorem Over.isOpen (ho : Over w sent kept h) : isOpen w.stream h = false := by
  obtain ⟨r, hr, hopened, -⟩ := ho.stream
  simp [Stream.isOpen, hr, hopened]

theorem Over.sentOn (ho : Over w sent kept h) : sentOn w.stream h = sent := by
  obtain ⟨r, hr, -, hsent⟩ := ho.stream
  simp [Stream.sentOn, hr, hsent]

/-- An authorized stream, whatever its client sends and whatever is published and forwarded meanwhile:
other than board events it sends that it is open, and then to each text what it is due, in order, up to
the first text that is not legible; it stays open, and so answers all texts, iff there is none. When it
has ended, at such a text or because the client disconnected, nothing that happens later makes it send
anything, its subscription is closed and not listed under any key, and no publication reaches it. -/
theorem texts_answered_iff {headers : List (String × String)} {target : Http.Target} {board : String}
    {s : Site} {h : Hub} (hboard : Http.Route.streamBoard? target.path = some board)
    (hauth : h.service.authorize (accountOf headers target) (h.service.boardOf (.text board)) = true)
    (hsite : h.sites[h.current]? = some s) (hexact : s.channel.Exact) {steps : List Step}
    (hsteps : ∀ x ∈ steps, (Session.opening headers target board s h).Arises x) :
    let w := Session.opening headers target board s h
    let h' := w.runAll steps (Hub.openStream headers target h).2
    answers (sentOn w.stream h') =
        .accept :: ((textsOf steps).takeWhile isLegible).filterMap due ∧
      (isOpen w.stream h' = true ↔ ∀ s ∈ textsOf steps, isLegible s = true) ∧
      ∃ kept, ∀ later,
        let g := w.runAll later (if isOpen w.stream h' then (Hub.endStream w.stream h').2 else h')
        sentOn w.stream g = sentOn w.stream h' ∧
          ∃ s, g.sites[w.site]? = some s ∧ s.channel.Shut w.number kept ∧
            ∀ key, w.number ∉ s.channel.numbers key ∧ ∀ e,
              (s.channel.publish key e).2.subscription? w.number =
                s.channel.subscription? w.number := by
  intro w h'
  -- the three parts of what is said of a stream that has ended are said by its invariant
  have hgone {sent : List Message} {kept : List Buffered} {g : Hub} (ho : Over w sent kept g) :
      sentOn w.stream g = sent ∧ ∃ s, g.sites[w.site]? = some s ∧ s.channel.Shut w.number kept ∧
        ∀ key, w.number ∉ s.channel.numbers key ∧ ∀ e,
          (s.channel.publish key e).2.subscription? w.number =
            s.channel.subscription? w.number := by
    obtain ⟨s, hs, hshut⟩ := ho.subscription
    exact ⟨ho.sentOn, s, hs, hshut, fun key => ⟨hshut.notMem_numbers key, hshut.publish key⟩⟩
  obtain ⟨t, hsent, hlegible, hbroken⟩ := run_texts (live_opened hboard hauth hsite hexact)
    (bound_opened hboard hauth hsite) hsteps
  by_cases hall : ∀ s ∈ textsOf steps, isLegible s = true
  · obtain ⟨hlive, hbound⟩ := hlegible hall
    obtain ⟨kept, hover⟩ := over_endStream hlive hbound
    have hopen : isOpen w.stream h' = true := hlive.isOpen
    have hout : sentOn w.stream h' = t.sent := hlive.sentOn
    rw [hopen, hout, if_pos rfl]
    exact ⟨hsent, iff_of_true rfl hall, kept, fun later => hgone (hover.runAll later)⟩
  · obtain ⟨s, hs, hillegible⟩ : ∃ s ∈ textsOf steps, isLegible s = false := by simpa using hall
    obtain ⟨kept, hover⟩ := hbroken s hs hillegible
    have hopen : isOpen w.stream h' = false := hover.isOpen
    have hout : sentOn w.stream h' = t.sent := hover.sentOn
    rw [hopen, hout, if_neg Bool.false_ne_true]
    exact ⟨hsent, iff_of_false Bool.false_ne_true hall, kept, fun later =>
      hgone (hover.runAll later)⟩

/-- A ping, a card that is moved, a list, a turn of the forwarder, and an object that is no ping. -/
def chatter : List Step :=
  [.text "\x7b\"type\": \"ping\"\x7d", moves "1", .text "[1]", .turn 1 false, .text "\x7b\x7d"]

/-- The ping is answered with a pong, the list with an error, and the object not at all. -/
theorem texts_answered_chatter :
    let w := Session.opening [] sales "sales" narrow small
    let h' := w.runAll chatter (Hub.openStream [] sales small).2
    answers (sentOn w.stream h') = [.accept, pong, errorMessage "Invalid JSON"] ∧
      isOpen w.stream h' = true := by
  intro w h'
  have hsteps : ∀ x ∈ chatter, w.Arises x := by
    simp only [chatter, List.forall_mem_cons]
    exact ⟨trivial, rfl, trivial, trivial, trivial, nofun⟩
  have hlegible : ∀ s ∈ textsOf chatter, isLegible s = true := by decide +kernel
  have hdue : ((textsOf chatter).takeWhile isLegible).filterMap due =
      [pong, errorMessage "Invalid JSON"] := by decide +kernel
  obtain ⟨hsent, hopen, -⟩ := texts_answered_iff (by decide +kernel) rfl rfl (Channel.exact_new 1)
    hsteps
  exact ⟨hsent.trans (congrArg _ hdue), hopen.2 hlegible⟩

/-- A whole number of more digits than can be read. -/
def overlong : String := String.ofList (List.replicate 4301 '1')

theorem parse_ones (n : Nat) (hn : Decimal.Numeral.maxDigits < n + 1) :
    Json.parse (String.ofList (List.replicate (n + 1) '1')) = .error .longNumeral := by
  have hfront : Json.IsFront (List.replicate (n + 1) '1') := by
    refine .inr ⟨fun c hc => ?_, List.cons_ne_nil _ _, ?_⟩
    · rw [List.eq_of_mem_replicate hc]
      rfl
    · rw [List.replicate_succ, List.head?_cons]
      decide
  exact Json.parse_overlong hfront (by rwa [List.length_replicate])

/-- A number is no object and so is due an error, but one with too many digits is not answered, and the
stream ends at it. -/
theorem ended_by_numeral :
    let w := Session.opening [] sales "sales" narrow small
    let h' := w.runAll [.text overlong] (Hub.openStream [] sales small).2
    due overlong = some (errorMessage "Invalid JSON") ∧
      answers (sentOn w.stream h') = [.accept] ∧ isOpen w.stream h' = false := by
  intro w h'
  have hparse : Json.parse overlong = .error .longNumeral := parse_ones 4300 (by decide)
  have hdue : due overlong = some (errorMessage "Invalid JSON") := by rw [due, hparse]
  have hillegible : isLegible overlong = false := by rw [isLegible, hparse]
  have hlive : Live w { sent := [.accept] } (Hub.openStream [] sales small).2 :=
    live_opened (by decide +kernel) rfl rfl (Channel.exact_new 1)
  have hbound : Bound w (Hub.openStream [] sales small).2 :=
    bound_opened (by decide +kernel) rfl rfl
  have hsteps : ∀ x ∈ [.text overlong], w.Arises x := by simp [Session.Arises]
  obtain ⟨t, hsent, -, hbroken⟩ := run_texts hlive hbound hsteps
  obtain ⟨kept, hover⟩ := hbroken overlong List.mem_cons_self hillegible
  refine ⟨hdue, ?_, hover.isOpen⟩
  have hout : sentOn w.stream h' = t.sent := hover.sentOn
  have htexts : ((textsOf [.text overlong]).takeWhile isLegible).filterMap due = [] := by
    simp [textsOf, Step.text?, hillegible]
  rw [hout, hsent, htexts]
  rfl

end Stream

end Kanban
