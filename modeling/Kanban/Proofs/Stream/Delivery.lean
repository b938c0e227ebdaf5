import Kanban.Proofs.Stream.Tape

/-!
# Kanban.Proofs.Stream.Delivery — what a stream delivers

The hub does to a stream what its tape says, step by step. So the books of the tape say what was sent:
all that was published on the board of the stream, unless some burst overran the buffer of its
subscription, and then less, and nothing that tells of it.

* `Live` — a stream that is open and sent what its tape says; `live_opened` begins it, `Live.step`
  and `live_runAll` keep it.
* `delivers_iff` — every event is sent, once and in order, or the loss is told, iff no burst
  overruns the buffer.
-/

namespace Kanban

open Http.Stream (Message)

namespace Stream

open Http.Stream

/-! ## The subscription of a stream -/

open Channel.Tenants (effect)

/-- A subscription that buffers what waits on a tape. -/
structure Holds (w : Session) (t : Tape) (u : Subscription) : Prop where
  key : u.key = w.key
  size : u.size = w.size
  closed : u.closed = false
  broken : u.broken = false
  lagged : u.lagged = t.lagged
  buffer : u.buffer = t.waiting.map some

variable {w : Session} {t : Tape} {u : Subscription} {h : Hub}

theorem Holds.deliver (hu : Holds w t u) (e : Value) :
    Holds w (t.publish w.size e) (u.deliver e) := by
  have hfull : u.isFull = true ↔ 0 < w.size ∧ w.size ≤ t.waiting.length := by
    simp [Subscription.isFull, hu.size, hu.buffer]
  unfold Tape.publish Subscription.deliver Subscription.accept
  by_cases hf : 0 < w.size ∧ w.size ≤ t.waiting.length
  · rw [if_pos hf, if_pos (hfull.2 hf)]
    exact ⟨hu.key, hu.size, hu.closed, hu.broken, rfl, by simp [hu.buffer, List.map_tail]⟩
  · rw [if_neg hf, if_neg (mt hfull.1 hf)]
    exact ⟨hu.key, hu.size, hu.closed, hu.broken, hu.lagged, by simp [hu.buffer]⟩

/-- What happens on the channel does to the subscription what it does to the tape. -/
theorem Holds.effect (hu : Holds w t u) {x : Channel.Tenants.Act} (hx : w.Admits (.channel x)) :
    Holds w (w.record t (.channel x)) (effect w.number u x) := by
  cases x with
  | subscribe a b => exact hu
  | publish a b e =>
    simp only [Channel.Tenants.effect, Session.record, Session.event?]
    by_cases hk : Channel.keyOf a b = w.key
    · have ho : u.isOpen (Channel.keyOf a b) = true := by
        simp [Subscription.isOpen, hu.key, hu.closed, hk]
      have hh : u.hear e = u.deliver e := by simp [Subscription.hear, hu.broken]
      rw [if_pos ho, if_pos hk, hh]
      exact hu.deliver e
    · have ho : ¬ u.isOpen (Channel.keyOf a b) = true := by
        simp [Subscription.isOpen, hu.key, Ne.symm hk]
      rw [if_neg ho, if_neg hk]
      exact hu
  | close m | take m | sever m =>
    rw [Channel.Tenants.effect, if_neg (Ne.symm hx)]
    exact hu

/-! ## A stream at work -/

/-- A stream that is open, with its subscription and its forwarder, that sent what its tape says. -/
structure Live (w : Session) (t : Tape) (h : Hub) : Prop where
  subscription : ∃ s u, h.sites[w.site]? = some s ∧ s.channel.Exact ∧
    s.channel.subscription? w.number = some u ∧ Holds w t u
  stream : ∃ r, h.streams[w.stream]? = some r ∧ r.opened = true ∧ r.outbox = t.sent
  job : h.jobs[w.job]? = some w.task
  events : ∀ e ∈ t.waiting, e.isEvent = true

theorem server_apply {site : Nat} {s : Site} (hs : h.sites[site]? = some s) :
    h.server site =
      { storage := { repository := s.repository, folder := h.folder, stamp := h.stamp }
        channel := s.channel.quiet, allocator := h.allocator } := by
  simp [Hub.server, List.getD_eq_getElem?_getD, hs]

/-- What wakes no reader makes no job ready. -/
theorem setServer_of_woken_eq_nil (site : Nat) {s : Server} (hs : s.channel.woken = []) :
    h.setServer site s =
      { h with
        sites := h.sites.set site { repository := s.storage.repository, channel := s.channel }
        folder := s.storage.folder, allocator := s.allocator } := by
  simp [Hub.setServer, hs]

theorem onChannel_apply {α : Type} {site : Nat} {s : Site} (hs : h.sites[site]? = some s)
    (f : Channel → α × Channel) :
    Hub.onChannel site f h =
      ((f s.channel.quiet).1,
        { h with
          sites := h.sites.set site { s with channel := (f s.channel.quiet).2 }
          ready := h.ready ++ (f s.channel.quiet).2.woken.map (·, true) }) := by
  unfold Hub.onChannel Hub.onServerState
  rw [server_apply hs]
  rfl

/-- What leaves the registry exact and does to the subscription what happens to the tape. -/
theorem Live.onChannel {t' : Tape} (hl : Live w t h) {α : Type} (f : Channel → α × Channel)
    (hf : ∀ c u, c.Exact → c.subscription? w.number = some u → Holds w t u →
      (f c).2.Exact ∧ ∃ u', (f c).2.subscription? w.number = some u' ∧ Holds w t' u')
    (hsent : t'.sent = t.sent) (hevents : ∀ e ∈ t'.waiting, e.isEvent = true) :
    Live w t' (Hub.onChannel w.site f h).2 := by
  obtain ⟨s, u, hs, hexact, hn, hu⟩ := hl.subscription
  obtain ⟨hexact', u', hn', hu'⟩ := hf s.channel.quiet u hexact.quiet hn hu
  rw [onChannel_apply hs]
  obtain ⟨hlt, -⟩ := List.getElem?_eq_some_iff.1 hs
  refine ⟨⟨_, u', List.getElem?_set_self hlt, hexact', hn', hu'⟩, ?_, hl.job, hevents⟩
  rw [hsent]
  exact hl.stream

/-! ### The channel -/

theorem Live.channel (hl : Live w t h) {x : Channel.Tenants.Act} (hx : w.Admits (.channel x)) :
    Live w (w.record t (.channel x)) (w.step h (.channel x)) := by
  obtain ⟨hsent, hevents⟩ := record_channel hx hl.events
  refine hl.onChannel _ (fun c u hc hn hu => ⟨Channel.Tenants.exact_step hc x, ?_⟩) hsent hevents
  cases hsub : x.subscriber? with
  | none =>
    refine ⟨effect w.number u x, ?_, hu.effect hx⟩
    rw [Channel.Tenants.subscription?_step hc hsub, hn]
    rfl
  | some o =>
    -- a subscription that is made gets a number of its own
    obtain ⟨a, b, rfl⟩ : ∃ a b, x = .subscribe a b := by
      cases x <;> simp [Channel.Tenants.Act.subscriber?] at hsub
      exact ⟨_, _, rfl⟩
    have hlt : w.number < c.subscriptions.length := (List.getElem?_eq_some_iff.1 hn).1
    exact ⟨u, (Channel.subscription?_subscribe_of_ne (Nat.ne_of_lt hlt)).trans hn, hu⟩

/-! ### Texts of the client -/

theorem streams_post (stream : Nat) (m : Message) (h : Hub) :
    (Hub.post stream m h).2.streams[stream]? = (h.streams[stream]?).map fun r =>
      if r.opened then { r with outbox := r.outbox ++ [m] } else r := by
  simp [Hub.post, modify, modifyGet, MonadStateOf.modifyGet, StateT.modifyGet, pure]

/-- What is sent on a stream that is open is in its outbox. -/
theorem Live.post (hl : Live w t h) (m : Message) :
    Live w { t with sent := t.sent ++ [m] } (Hub.post w.stream m h).2 := by
  obtain ⟨r, hr, ho, hs⟩ := hl.stream
  refine ⟨?_, ⟨{ r with outbox := r.outbox ++ [m] }, ?_, ho, ?_⟩, hl.job, hl.events⟩
  · obtain ⟨s, u, hs, hc, hn, hu⟩ := hl.subscription
    exact ⟨s, u, hs, hc, hn, ⟨hu.key, hu.size, hu.closed, hu.broken, hu.lagged, hu.buffer⟩⟩
  · rw [streams_post, hr, Option.map_some, if_pos ho]
  · exact congrArg (· ++ [m]) hs

theorem Live.text (hl : Live w t h) {s : String} {r : Option Message} (hr : reply s = .ok r) :
    Live w (t.answer r) (w.step h (.text s)) := by
  obtain ⟨x, hx, ho, -⟩ := hl.stream
  have hstep : w.step h (.text s) = match r with
      | none => h
      | some m => (Hub.post w.stream m h).2 := by
    cases r <;>
      simp [Session.step, Hub.receive, bind, StateT.bind, get, getThe, MonadStateOf.get, StateT.get,
        pure, hx, ho, hr]
    -- nothing is left to do where nothing is answered
    rfl
  rw [hstep]
  cases r with
  | none => simpa [Tape.answer] using hl
  | some m => exact hl.post m

/-! ### The forwarder -/

/-- Reading gives the event that has waited longest, or nothing when none waits. -/
theorem read_holds {c : Channel} (hn : c.subscription? w.number = some u) (hu : Holds w t u)
    (ht : ∀ e ∈ t.waiting, e.isEvent = true) (woken : Bool) :
    c.read w.number woken = match t.waiting with
      | [] => (.pending, (c.take w.number).2)
      | e :: _ => (.event e, (c.take w.number).2) := by
  have hover : (!woken && u.isOver) = false := by simp [Subscription.isOver, hu.closed]
  cases hw : t.waiting with
  | nil => simp [Channel.read, Channel.take, hn, hover, Subscription.take, hu.buffer, hw]
  | cons e rest =>
    obtain ⟨r, rfl⟩ := Value.exists_object (ht e (by rw [hw]; exact List.mem_cons_self))
    simp [Channel.read, Channel.take, hn, hover, Subscription.take, hu.buffer, hw]

theorem Holds.take (hu : Holds w t u) :
    Holds w { t with waiting := t.waiting.tail } { u with buffer := u.buffer.tail } :=
  ⟨hu.key, hu.size, hu.closed, hu.broken, hu.lagged, by simp [hu.buffer, List.map_tail]⟩

theorem Live.take (hl : Live w t h) (woken : Bool) :
    Live w { t with waiting := t.waiting.tail }
      (Hub.onChannel w.site (·.read w.number woken) h).2 := by
  refine hl.onChannel _ (fun c u hc hn hu => ?_) rfl fun e he => hl.events e (List.mem_of_mem_tail he)
  have hread : (c.read w.number woken).2 = (c.take w.number).2 := by
    rw [read_holds hn hu hl.events]
    split <;> rfl
  refine ⟨hread ▸ Channel.exact_take hc _, _, ?_, hu.take⟩
  rw [hread, Channel.subscription?_take, if_pos rfl, hn]
  rfl

theorem Live.wait (hl : Live w t h) :
    Live w t (Hub.onChannel w.site (fun c => ((), c.wait w.number w.job)) h).2 := by
  refine hl.onChannel _ (fun c u hc hn hu => ?_) rfl hl.events
  refine ⟨Channel.exact_update hc _ (fun _ => rfl) (fun _ => rfl),
    { u with waiting := u.waiting ++ [w.job] }, ?_,
    ⟨hu.key, hu.size, hu.closed, hu.broken, hu.lagged, hu.buffer⟩⟩
  rw [Channel.wait, Channel.subscription?_update, if_pos rfl, hn]
  rfl

/-- What the forwarder finds first. -/
theorem Live.read_fst (hl : Live w t h) (woken : Bool) :
    (Hub.onChannel w.site (·.read w.number woken) h).1 = match t.waiting with
      | [] => .pending
      | e :: _ => .event e := by
  obtain ⟨s, u, hs, -, hn, hu⟩ := hl.subscription
  rw [onChannel_apply hs]
  dsimp only
  rw [read_holds (c := s.channel.quiet) hn hu hl.events]
  split <;> rfl

/-- What the forwarder does with what it reads. -/
theorem Session.run_task (w : Session) (limit : Nat) (woken : Bool) (h : Hub) :
    Hub.run w.job w.task (limit + 1) woken h =
      match Hub.onChannel w.site (·.read w.number woken) h with
      | (.pending, h) => Hub.onChannel w.site (fun c => ((), c.wait w.number w.job)) h
      | (.over, h) => Hub.finishJob w.job (.ok .null) h
      | (.event e, h) => Hub.run w.job w.task limit false (Hub.post w.stream (.json e) h).2 := by
  rw [Hub.run]
  simp only [bind, StateT.bind, Session.task]
  cases Hub.onChannel w.site (·.read w.number woken) h with
  | mk r h => cases r <;> rfl

/-- The forwarder sends what waits, in order, as far as it gets. -/
theorem Live.run (hl : Live w t h) (limit : Nat) (woken : Bool) :
    Live w (t.turn limit) (Hub.run w.job w.task limit woken h).2 := by
  induction limit generalizing t h woken with
  | zero =>
    have ht : t.turn 0 = t := by simp [Tape.turn]
    rw [ht]
    exact hl
  | succ limit ih =>
    have hfirst := hl.read_fst woken
    have htake := hl.take woken
    rw [w.run_task]
    generalize Hub.onChannel w.site (·.read w.number woken) h = q at hfirst htake
    obtain ⟨r, h'⟩ := q
    cases hw : t.waiting with
    | nil =>
      -- nothing waits, and the forwarder waits in line
      obtain rfl : r = .pending := by rw [hw] at hfirst; exact hfirst
      have ht : t.turn (limit + 1) = { t with waiting := t.waiting.tail } := by
        simp [Tape.turn, hw]
      rw [ht]
      exact htake.wait
    | cons e rest =>
      -- the first event is sent, and the forwarder goes on
      obtain rfl : r = .event e := by rw [hw] at hfirst; exact hfirst
      have ht : t.turn (limit + 1) =
          Tape.turn limit { t with waiting := t.waiting.tail, sent := t.sent ++ [.json e] } := by
        simp [Tape.turn, hw]
      rw [ht]
      exact ih (htake.post (.json e)) false

/-! ### Runs -/

theorem Live.step (hl : Live w t h) {x : Step} (hx : w.Admits x) :
    Live w (w.record t x) (w.step h x) := by
  cases x with
  | channel x => exact hl.channel hx
  | text s =>
    obtain ⟨r, hr⟩ := hx
    have hrec : w.record t (.text s) = t.answer r := by simp [Session.record, hr]
    rw [hrec]
    exact hl.text hr
  | turn limit woken => exact hl.run limit woken

/-- The hub does to a stream what its tape says. -/
theorem live_runAll (hl : Live w t h) {steps : List Step} (hx : ∀ x ∈ steps, w.Admits x) :
    Live w (w.recordAll steps t) (w.runAll steps h) := by
  induction steps generalizing t h with
  | nil => exact hl
  | cons x rest ih =>
    exact ih (hl.step (hx x List.mem_cons_self)) fun y hy => hx y (List.mem_cons_of_mem _ hy)

/-- When the forwarder is woken, or runs for the first time, it sends all that waits. -/
theorem Live.runJob (hl : Live w t h) (woken : Bool) :
    Live w (t.turn (t.waiting.length + 2)) (Hub.runJob w.job woken h).2 := by
  have hlength : ((h.subscription? w.site w.number).map (·.buffer.length)).getD 0 =
      t.waiting.length := by
    obtain ⟨s, u, hs, -, hn, hu⟩ := hl.subscription
    simp [Hub.subscription?, hs, hn, hu.buffer]
  have hjob : Hub.runJob w.job woken h = Hub.run w.job w.task (t.waiting.length + 2) woken h := by
    rw [← hlength]
    simp [Hub.runJob, bind, StateT.bind, get, getThe, MonadStateOf.get, StateT.get, pure, hl.job,
      Session.task]
  rw [hjob]
  exact hl.run _ woken

/-! ### Opening a stream -/

/-- The session that opening a stream begins, on a hub that serves from a site. -/
def Session.opening (headers : List (String × String)) (t : Http.Target) (board : String) (s : Site)
    (h : Hub) : Session where
  site := h.current
  number := s.channel.subscriptions.length
  stream := h.streams.length
  job := h.jobs.length
  key := Channel.keyOf (accountOf headers t) (h.service.boardOf (.text board))
  size := s.channel.queueSize

theorem opened_apply {v : Service} {headers : List (String × String)} {t : Http.Target}
    {board : String} (hboard : Http.Route.streamBoard? t.path = some board)
    (hauth : v.authorize (accountOf headers t) (v.boardOf (.text board)) = true) (s : Server) :
    Http.Stream.opened v headers t s =
      (([.accept], some s.channel.subscriptions.length), { s with channel := (s.channel.subscribe
        (Channel.keyOf (accountOf headers t) (v.boardOf (.text board)))).2 }) := by
  have hsub : (v.subscribe (accountOf headers t) (.text board)).run s =
      (.ok s.channel.subscriptions.length, { s with channel := (s.channel.subscribe
        (Channel.keyOf (accountOf headers t) (v.boardOf (.text board)))).2 }) := by
    simp [Service.subscribe, hauth]
    rfl
  simp [Http.Stream.opened, hboard, bind, StateT.bind, hsub]
  rfl

/-- An authorized stream gets a subscription, a record and a forwarder. -/
theorem openStream_apply {headers : List (String × String)} {t : Http.Target} {board : String}
    {s : Site} (hboard : Http.Route.streamBoard? t.path = some board)
    (hauth : h.service.authorize (accountOf headers t) (h.service.boardOf (.text board)) = true)
    (hsite : h.sites[h.current]? = some s) :
    (Hub.openStream headers t h).2 =
      { h with
        sites := h.sites.set h.current { s with channel := (s.channel.quiet.subscribe
          (Session.opening headers t board s h).key).2 }
        streams := h.streams ++ [
          { site := h.current, subscription := some s.channel.subscriptions.length, opened := true
            outbox := [.accept] }]
        jobs := h.jobs ++ [(Session.opening headers t board s h).task]
        ready := h.ready ++ [(h.jobs.length, false)] } := by
  have hserver : Hub.onServerState h.current (Http.Stream.opened h.service headers t) h =
      (([.accept], some s.channel.subscriptions.length),
        { h with sites := h.sites.set h.current { s with channel := (s.channel.quiet.subscribe
          (Session.opening headers t board s h).key).2 } }) := by
    rw [Hub.onServerState, server_apply hsite, opened_apply hboard hauth]
    -- opening a subscription wakes no reader
    exact congrArg _ (setServer_of_woken_eq_nil _ rfl)
  simp only [Hub.openStream, bind, StateT.bind, get, getThe, MonadStateOf.get, StateT.get, pure,
    hserver]
  rfl

theorem live_opened {headers : List (String × String)} {t : Http.Target} {board : String} {s : Site}
    (hboard : Http.Route.streamBoard? t.path = some board)
    (hauth : h.service.authorize (accountOf headers t) (h.service.boardOf (.text board)) = true)
    (hsite : h.sites[h.current]? = some s) (hexact : s.channel.Exact) :
    Live (Session.opening headers t board s h) { sent := [.accept] }
      (Hub.openStream headers t h).2 := by
  rw [openStream_apply hboard hauth hsite]
  obtain ⟨hlt, -⟩ := List.getElem?_eq_some_iff.1 hsite
  refine ⟨⟨_, _, List.getElem?_set_self hlt, Channel.exact_subscribe hexact.quiet _,
    Channel.subscription?_subscribe_self _ _, ⟨rfl, rfl, rfl, rfl, rfl, rfl⟩⟩,
    ⟨_, List.getElem?_concat_length, rfl, rfl⟩, List.getElem?_concat_length, by simp⟩

/-! ## What a stream delivers -/

/-- What was sent on a stream and not collected yet. -/
def sentOn (stream : Nat) (h : Hub) : List Message := ((h.streams[stream]?).map (·.outbox)).getD []

/-- What a stream has sent when the forwarder has run: the books of its tape hold. -/
theorem sent_runJob {w : Session} {h : Hub} (hl : Live w { sent := [.accept] } h) {steps : List Step}
    (hx : ∀ x ∈ steps, w.Admits x) (woken : Bool) :
    ∃ t : Tape, sentOn w.stream (Hub.runJob w.job woken (w.runAll steps h)).2 = t.sent ∧
      t.waiting = [] ∧ t.Account (w.published steps) ∧ t.lagged = w.overruns 0 steps := by
  have hnew : Tape.Account [] { sent := [.accept] } :=
    ⟨fun m hm => .inl (List.mem_singleton.1 hm), by simp, fun _ => rfl, fun hl => by cases hl⟩
  have hrun := live_runAll hl hx
  have hbooks := Tape.account_recordAll hnew hx
  have hlag := Tape.lagged_recordAll (w := w) steps { sent := [.accept] }
  generalize w.recordAll steps { sent := [.accept] } = t at hrun hbooks hlag
  obtain ⟨r, hr, -, hsent⟩ := (hrun.runJob woken).stream
  refine ⟨t.turn (t.waiting.length + 2), by simp [sentOn, hr, hsent], ?_, hbooks.turn _, hlag⟩
  exact List.drop_of_length_le (Nat.le_add_right _ 2)

/-- Whatever happens while a stream is open, and when the forwarder has run at last: every event that
was published on its board was sent, once and in order, or something was sent that is neither a board
event nor in the normal course of things, iff no burst overran the buffer of the subscription. -/
theorem delivers_iff {headers : List (String × String)} {target : Http.Target} {board : String}
    {s : Site} {h : Hub} (hboard : Http.Route.streamBoard? target.path = some board)
    (hauth : h.service.authorize (accountOf headers target) (h.service.boardOf (.text board)) = true)
    (hsite : h.sites[h.current]? = some s) (hexact : s.channel.Exact) {steps : List Step}
    (hsteps : ∀ x ∈ steps, (Session.opening headers target board s h).Admits x) (woken : Bool) :
    let w := Session.opening headers target board s h
    let sent := sentOn w.stream
      (Hub.runJob w.job woken (w.runAll steps (Hub.openStream headers target h).2)).2
    (sent.filterMap Message.event? = w.published steps ∨ ∃ m ∈ sent, ¬ m.IsRoutine) ↔
      w.overruns 0 steps = false := by
  intro w sent
  obtain ⟨t, hsent, hempty, hbooks, hlag⟩ :=
    sent_runJob (live_opened hboard hauth hsite hexact) hsteps woken
  have hall : sent.filterMap Message.event? = t.forwarded := congrArg _ hsent
  rw [hall, ← hlag]
  constructor
  · rintro (hwhole | ⟨m, hm, hnot⟩)
    · -- had it lagged, fewer events than were published would have been sent
      refine Bool.eq_false_iff.2 fun hl => ?_
      have hshort := hbooks.short hl
      rw [hempty, List.append_nil, hwhole] at hshort
      exact absurd hshort (Nat.lt_irrefl _)
    · exact absurd (hbooks.routine m (hsent ▸ hm)) hnot
  · intro hl
    have hwhole := hbooks.whole hl
    rw [hempty, List.append_nil] at hwhole
    exact .inl hwhole

/-- A site whose subscriptions buffer one event. -/
def narrow : Site := { channel := { queueSize := 1 } }

/-- The hub with this site. -/
def small : Hub := { clock := 0.0, sites := [narrow] }

/-- Where a stream on a board is opened. -/
def sales : Http.Target := { path := "/api/v1/boards/sales/ws", query := [] }

/-- A card of that board is moved. -/
def moves (card : String) : Step :=
  .channel (.publish "default" "sales" (.object [("event", "card_moved"), ("card_id", card)]))

theorem admits_moves (w : Session) (card : String) : w.Admits (moves card) := rfl

theorem admits_turn (w : Session) (limit : Nat) (woken : Bool) : w.Admits (.turn limit woken) :=
  trivial

/-- Two moves are told when the forwarder runs in between. -/
theorem delivers_turn :
    let w := Session.opening [] sales "sales" narrow small
    let steps := [moves "1", .turn 1 false, moves "2"]
    let sent := sentOn w.stream
      (Hub.runJob w.job true (w.runAll steps (Hub.openStream [] sales small).2)).2
    (sent.filterMap Message.event? = w.published steps ∨ ∃ m ∈ sent, ¬ m.IsRoutine) ∧
      (w.published steps).length = 2 := by
  have hsteps : ∀ x ∈ [moves "1", .turn 1 false, moves "2"],
      (Session.opening [] sales "sales" narrow small).Admits x := by
    simp [admits_moves, admits_turn]
  exact ⟨(delivers_iff (by decide +kernel) rfl rfl (Channel.exact_new 1) hsteps true).2
    (by decide +kernel), by decide +kernel⟩

/-- Two moves in one burst overrun a buffer for one event, and nothing tells that one was lost. -/
theorem lost_untold :
    let w := Session.opening [] sales "sales" narrow small
    let steps := [moves "1", moves "2"]
    let sent := sentOn w.stream
      (Hub.runJob w.job true (w.runAll steps (Hub.openStream [] sales small).2)).2
    sent.filterMap Message.event? ≠ w.published steps ∧ ∀ m ∈ sent, m.IsRoutine := by
  intro w steps sent
  have hsteps : ∀ x ∈ steps, w.Admits x := by
    simp [steps, admits_moves]
  obtain ⟨t, hsent, hempty, hbooks, hlag⟩ :=
    sent_runJob (live_opened (by decide +kernel) rfl rfl (Channel.exact_new 1)) hsteps true
  have hoverrun : w.overruns 0 steps = true := by decide +kernel
  have hall : sent.filterMap Message.event? = t.forwarded := congrArg _ hsent
  refine ⟨fun hwhole => ?_, fun m hm => hbooks.routine m (hsent ▸ hm)⟩
  have hshort := hbooks.short (hlag.trans hoverrun)
  rw [hempty, List.append_nil, ← hall, hwhole] at hshort
  exact absurd hshort (Nat.lt_irrefl _)

end Stream

end Kanban
