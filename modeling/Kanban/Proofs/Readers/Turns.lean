import Kanban.Proofs.Channel.History
import Kanban.Proofs.Server.Serving
import Kanban.Proofs.Stream.Delivery

/-!
# Kanban.Proofs.Readers.Turns — jobs that take turns at a subscription

The hub lets its jobs run one after the other. A job that is at another subscription leaves a
subscription and its readers alone, whatever it does: it takes from its own buffer, feeds a
client, reads a board again, sends on a stream. A reader at a subscription that is closed takes
what is buffered first; if there is nothing, one that begins ends, and one that was woken waits
again.

* `Hub.Beside` — a subscription and its readers were left alone and no job became ready;
  `beside_runJob` — by other jobs.
* `Subscription.serve` — one turn of a reader; `runJob_reader` — the hub gives it.
* `Served.cons`, `Served.after` — one turn, of a reader or of another job, before others;
  `turns_readers` — many turns.
-/

namespace Kanban

open Operation

/-- Whether a job is at a subscription of a site. One that awaits a move is at none. -/
def Job.attends (site n : Nat) (j : Job) : Bool :=
  match j.task with
  | .move _ _ => false
  | _ => j.site = site && j.subscription = n

/-- Reading wakes nobody. -/
theorem Channel.woken_read (n : Nat) (woken : Bool) (c : Channel) :
    (c.read n woken).2.woken = c.woken := by
  have htake : (c.take n).2.woken = c.woken := by
    unfold take
    split <;> rfl
  unfold read
  split
  · rfl
  · split
    · rfl
    · split <;> simp_all

namespace Hub

variable {site n site' n' : Nat} {h h₁ h₂ : Hub} {α β : Type}

/-- Whether the job with a number is at a subscription of a site. -/
def attends (site n : Nat) (h : Hub) (r : Nat) : Bool := (h.jobs[r]?).any (·.attends site n)

/-! ## Other jobs -/

/-- A subscription and the jobs at it are as they were, and no job became ready. -/
structure Beside (site n : Nat) (h h' : Hub) : Prop where
  subscription : h'.subscription? site n = h.subscription? site n
  jobs : ∀ r, h.attends site n r = true → h'.jobs[r]? = h.jobs[r]?
  attends : ∀ r, h'.attends site n r = h.attends site n r
  ready : h'.ready = h.ready

theorem Beside.refl (h : Hub) : Beside site n h h := ⟨rfl, fun _ _ => rfl, fun _ => rfl, rfl⟩

theorem Beside.trans (hb : Beside site n h h₁) (hb' : Beside site n h₁ h₂) :
    Beside site n h h₂ where
  subscription := hb'.subscription.trans hb.subscription
  jobs := fun r hr => (hb'.jobs r (by rw [hb.attends, hr])).trans (hb.jobs r hr)
  attends := fun r => (hb'.attends r).trans (hb.attends r)
  ready := hb'.ready.trans hb.ready

/-- A change that concerns neither the sites nor the jobs. -/
theorem beside_of_eq (hs : h₁.sites = h.sites) (hj : h₁.jobs = h.jobs)
    (hr : h₁.ready = h.ready) : Beside site n h h₁ := by
  refine ⟨?_, fun r _ => by rw [hj], fun r => ?_, hr⟩
  · rw [subscription?, subscription?, hs]
  · rw [Hub.attends, Hub.attends, hj]

/-- Something that leaves a subscription and the jobs at it alone and makes no job ready. -/
def Spares (site n : Nat) (x : Hub → α × Hub) : Prop := ∀ h, Beside site n h (x h).2

theorem spares_bind {x : Op α} {f : α → Op β} (hx : Spares site n x)
    (hf : ∀ a, Spares site n (f a)) : Spares site n (x >>= f) := by
  intro h
  exact keeps_bind (P := Beside site n h) (hx h) fun a t ht => ht.trans (hf a t)

theorem spares_pure (a : α) : Spares site n (pure a : Op α) := fun h => .refl h

theorem spares_throw (e : Failure) : Spares site n (throw e : Op α) := fun h => .refl h

theorem spares_get : Spares site n (get : Op Hub) := fun h => .refl h

/-- A server is stored whose subscription is as it was, and which woke nobody. -/
theorem beside_setServer {s : Server} (hs : site' = site →
    s.channel.subscription? n = (h.server site).channel.subscription? n)
    (hw : s.channel.woken = []) : Beside site n h (h.setServer site' s) := by
  rw [Stream.setServer_of_woken_eq_nil site' hw]
  refine ⟨?_, fun _ _ => rfl, fun _ => rfl, rfl⟩
  unfold subscription?
  by_cases hsite : site' = site
  · subst hsite
    by_cases hlt : site' < h.sites.length
    · rw [List.getElem?_set_self hlt, List.getElem?_eq_getElem hlt]
      have hc := hs rfl
      simpa [server, List.getD_eq_getElem?_getD, hlt] using hc
    · rw [List.set_eq_of_length_le (Nat.le_of_not_lt hlt)]
  · rw [List.getElem?_set_ne hsite]

theorem spares_onChannel {f : Channel → α × Channel}
    (hf : site' = site → ∀ c, (f c).2.subscription? n = c.subscription? n)
    (hw : ∀ c, (f c).2.woken = c.woken) : Spares site n (onChannel site' f) := by
  intro h
  -- the server had woken nobody before
  refine beside_setServer (fun hsite => ?_) (hw _)
  subst hsite
  exact hf rfl _

theorem spares_onServer {op : Server.Op α} (hop : ∀ s, (op s).2.channel = s.channel) :
    Spares site n (onServer site' op) := by
  intro h
  refine beside_setServer (fun hsite => ?_) (congrArg (·.woken) (hop _))
  subst hsite
  exact congrArg (·.subscription? n) (hop _)

theorem spares_onClient (client : Nat) (op : Projection.Op α) :
    Spares site n (onClient client op) := by
  intro h
  unfold onClient
  cases h.clients[client]? with
  | none => exact .refl h
  | some e => exact beside_of_eq rfl rfl rfl

theorem jobs_finishJob (q i : Nat) (x : Except Failure Value) (h : Hub) :
    (finishJob q x h).2.jobs[i]? =
      if q = i then (h.jobs[i]?).map ({ · with result := some x }) else h.jobs[i]? := by
  simp [finishJob, modify, modifyGet, MonadStateOf.modifyGet, StateT.modifyGet, pure,
    List.getElem?_modify]
  split <;> simp

/-- Another job is done. -/
theorem beside_finishJob {q : Nat} (x : Except Failure Value) (hq : h.attends site n q = false) :
    Beside site n h (finishJob q x h).2 := by
  refine ⟨rfl, fun i hi => ?_, fun i => ?_, rfl⟩
  · rw [jobs_finishJob, if_neg]
    rintro rfl
    rw [hq] at hi
    cases hi
  · rw [attends, attends, jobs_finishJob]
    split
    · cases h.jobs[i]? <;> rfl
    · rfl

/-- Reading a board leaves the channel of its server alone. -/
theorem channel_readFrom (v : Service) (account : String) (board : Key) (s : Server) :
    (Client.readFrom v account board s).2.channel = s.channel := by
  rw [Server.readFrom_apply]
  split
  · rw [Server.use_apply]
    cases (Storage.use account s.storage).1 with
    | error e => rfl
    | ok _ =>
      dsimp only
      split <;> rfl
  · rfl

theorem spares_reload (client : Nat) : Spares site n (reload client) := by
  refine spares_bind spares_get fun h => ?_
  cases h.clients[client]? with
  | none => exact spares_throw _
  | some e =>
    obtain ⟨i, c⟩ := e
    dsimp only
    cases c.loader with
    | none => exact spares_bind (spares_throw _) fun _ => spares_onClient _ _
    | fixed payload => exact spares_bind (spares_pure _) fun _ => spares_onClient _ _
    | service =>
      refine spares_bind spares_get fun _ => spares_bind ?_ fun _ => spares_onClient _ _
      exact spares_onServer (channel_readFrom _ _ _)

/-- A change of another subscription. -/
theorem subscription?_update_of_ne (hne : n' ≠ n) (f : Subscription → Subscription) (c : Channel) :
    (c.update n' f).subscription? n = c.subscription? n := by
  rw [Channel.subscription?_update, if_neg hne.symm]

/-- A client that hears an event of another subscription. -/
theorem spares_hear (client : Nat) (hne : site' = site → n' ≠ n) (e : Value) :
    Spares site n (hear client site' n' e) := by
  have hdiscard :
      Spares site n (discard (onClient client (Projection.applyEvent e)) : Op PUnit) := by
    intro h
    rw [discard_apply]
    have hclient : Beside site n h (onClient client (Projection.applyEvent e) h).2 :=
      spares_onClient client (Projection.applyEvent e) h
    cases hx : onClient client (Projection.applyEvent e) h with
    | mk r t =>
      rw [hx] at hclient
      cases r <;> exact hclient
  have hreload (lagged : Bool) : Spares site n (if lagged then (do
      ExceptT.lift (onChannel site' fun c => ((), c.update n' ({ · with lagged := false })))
      reload client) else pure () : Op Unit) := by
    cases lagged with
    | false => exact spares_pure ()
    | true =>
      have hupdate : Spares site n (onChannel site' fun c =>
          ((), c.update n' ({ · with lagged := false }))) :=
        spares_onChannel (fun hs c => subscription?_update_of_ne (hne hs) _ c) fun _ => rfl
      exact spares_bind (fun h => hupdate h) fun _ => spares_reload client
  exact spares_bind hdiscard fun _ => spares_bind spares_get fun h => hreload _

theorem spares_post (stream : Nat) (m : Http.Stream.Message) : Spares site n (post stream m) :=
  fun _ => beside_of_eq rfl rfl rfl

/-- A job at another subscription. -/
theorem beside_run {q : Nat} {j : Job} (hne : j.site = site → j.subscription ≠ n)
    (fuel : Nat) (woken : Bool) (hq : h.attends site n q = false) :
    Beside site n h (run q j fuel woken h).2 := by
  induction fuel generalizing h woken with
  | zero => exact .refl h
  | succ fuel ih =>
    have hread : Spares site n (onChannel j.site (·.read j.subscription woken)) :=
      spares_onChannel (fun hs c => by
        rw [Channel.subscription?_read, if_neg (hne hs).symm]) (Channel.woken_read _ _)
    have hbeside := hread h
    rw [run]
    simp only [bind, StateT.bind]
    cases hx : onChannel j.site (·.read j.subscription woken) h with
    | mk r h₁ =>
      rw [hx] at hbeside
      have hq₁ : h₁.attends site n q = false := by rw [hbeside.attends, hq]
      match r with
      | .pending =>
        refine hbeside.trans (spares_onChannel (fun hs c => ?_) (fun _ => rfl) h₁)
        exact subscription?_update_of_ne (hne hs) _ c
      | .over => exact hbeside.trans (beside_finishJob _ hq₁)
      | .event e =>
        cases hj : j.task with
        | read => exact hbeside.trans (beside_finishJob _ hq₁)
        | move client m => exact hbeside
        | forward stream =>
          have hpost : Beside site n h₁ (post stream (.json e) h₁).2 := spares_post _ _ h₁
          exact (hbeside.trans hpost).trans (ih false (by rw [hpost.attends, hq₁]))
        | listen client =>
          have hhear := spares_hear client hne e h₁
          dsimp only [StateT.bind]
          cases hy : (hear client j.site j.subscription e).run h₁ with
          | mk r h₂ =>
            have hh₂ : Beside site n h₁ h₂ := by
              have : h₂ = (hear client j.site j.subscription e h₁).2 := (congrArg Prod.snd hy).symm
              rw [this]
              exact hhear
            have hq₂ : h₂.attends site n q = false := by rw [hh₂.attends, hq₁]
            cases r with
            | ok _ => exact (hbeside.trans hh₂).trans (ih false hq₂)
            | error f => exact (hbeside.trans hh₂).trans (beside_finishJob _ hq₂)

/-- What a hub does that lets a job run. -/
theorem runJob_eq (q : Nat) (woken : Bool) (h : Hub) :
    runJob q woken h = match h.jobs[q]? with
      | none => ((), h)
      | some j =>
        if j.result.isSome then ((), h)
        else match j.task with
          | .move _ _ => ((), h)
          | _ =>
            run q j (((h.subscription? j.site j.subscription).map (·.buffer.length)).getD 0 + 2)
              woken h := by
  unfold runJob
  simp only [bind, StateT.bind, get, getThe, MonadStateOf.get, StateT.get, pure]
  cases h.jobs[q]? with
  | none => rfl
  | some j =>
    dsimp only
    split
    · rfl
    · cases j.task <;> rfl

theorem beside_runJob {q : Nat} (hq : h.attends site n q = false) (woken : Bool) :
    Beside site n h (runJob q woken h).2 := by
  rw [runJob_eq]
  cases hj : h.jobs[q]? with
  | none => exact .refl h
  | some j =>
    have hnot : j.attends site n = false := by
      rw [attends, hj] at hq
      exact hq
    have hrun (ht : j.attends site n = (decide (j.site = site) && decide (j.subscription = n)))
        (fuel : Nat) : Beside site n h (run q j fuel woken h).2 := by
      refine beside_run (fun hs hn => ?_) fuel woken hq
      rw [ht, decide_eq_true hs, decide_eq_true hn] at hnot
      cases hnot
    dsimp only
    split
    · exact .refl h
    · cases ht : j.task with
      | move client m => exact .refl h
      | read | listen client | forward stream => exact hrun (by simp [Job.attends, ht]) _

end Hub

/-! ## Readers -/

/-- A job that waits for one event. -/
def reader (site n : Nat) : Job where
  task := .read
  site := site
  subscription := n

/-- One turn of a reader at a subscription that is closed: what it is answered, if it is, and what
is left. What is buffered comes first. If there is nothing, a reader that begins sees that all is
over, and one that was woken goes to the end of the line. -/
def Subscription.serve (woken : Bool) (r : Nat) (u : Subscription) : Option Value × Subscription :=
  match u.buffer with
  | b :: rest => (some (b.getD .null), { u with buffer := rest })
  | [] => if woken then (none, { u with waiting := u.waiting ++ [r] }) else (some .null, u)

namespace Hub

variable {site n r : Nat} {h h₁ h₂ : Hub} {u : Subscription}

/-- The subscription of a site whose channel was changed. -/
theorem subscription?_set {s : Site} (hs : h.sites[site]? = some s) (c : Channel) :
    ({ h with sites := h.sites.set site { s with channel := c } } : Hub).subscription? site n =
      c.subscription? n := by
  obtain ⟨hlt, -⟩ := List.getElem?_eq_some_iff.1 hs
  simp [subscription?, hlt]

/-- What a read of a subscription comes to that is closed. -/
theorem read_closed {c : Channel} (hu : c.subscription? n = some u) (hc : u.closed = true)
    (woken : Bool) :
    c.read n woken = match u.buffer with
      | [] => if woken then (.pending, c.update n fun _ => u) else (.over, c)
      | b :: rest => (match b with
        | none | some .null => .over
        | some e => .event e, c.update n fun _ => { u with buffer := rest }) := by
  cases hb : u.buffer with
  | nil =>
    have hover : u.isOver = true := by simp [Subscription.isOver, hc, hb]
    cases woken <;> simp [Channel.read, Channel.take, hu, hover, Subscription.take, hb]
  | cons b rest =>
    have hover : u.isOver = false := by simp [Subscription.isOver, hb]
    rcases b with _ | ⟨⟩ | _ | _ | _ | _ | _ | _ <;>
      simp [Channel.read, Channel.take, hu, hover, Subscription.take, hb]

/-- What a reader does with what it reads. -/
theorem run_reader (r fuel : Nat) (woken : Bool) (h : Hub) :
    run r (reader site n) (fuel + 1) woken h =
      match onChannel site (·.read n woken) h with
      | (.pending, h) => onChannel site (fun c => ((), c.wait n r)) h
      | (.over, h) => finishJob r (.ok .null) h
      | (.event e, h) => finishJob r (.ok e) h := by
  rw [run]
  simp only [bind, StateT.bind, reader]
  cases onChannel site (·.read n woken) h with
  | mk x h => cases x <;> rfl

/-- A change of a channel that wakes nobody. -/
theorem onChannel_of_woken_eq_nil {α : Type} {s : Site} (hs : h.sites[site]? = some s)
    {f : Channel → α × Channel} (hw : (f s.channel.quiet).2.woken = []) :
    onChannel site f h = ((f s.channel.quiet).1,
      { h with sites := h.sites.set site { s with channel := (f s.channel.quiet).2 } }) := by
  rw [Stream.onChannel_apply hs, hw, List.map_nil, List.append_nil]

/-- A reader whose turn it is, is served; nothing happens to other jobs, and none becomes ready. -/
theorem runJob_reader (hu : h.subscription? site n = some u) (hc : u.closed = true)
    (hr : h.jobs[r]? = some (reader site n)) (woken : Bool) :
    (runJob r woken h).2.subscription? site n = some (u.serve woken r).2 ∧
      (runJob r woken h).2.jobs[r]? =
        some { reader site n with result := (u.serve woken r).1.map .ok } ∧
      (∀ i, i ≠ r → (runJob r woken h).2.jobs[i]? = h.jobs[i]?) ∧
      (runJob r woken h).2.ready = h.ready := by
  obtain ⟨s, hs, hsub⟩ := Option.bind_eq_some_iff.1 hu
  have hrun : runJob r woken h = run r (reader site n)
      (((h.subscription? site n).map (·.buffer.length)).getD 0 + 1 + 1) woken h := by
    rw [runJob_eq, hr]
    rfl
  have hread := onChannel_of_woken_eq_nil hs (Channel.woken_read n woken s.channel.quiet)
  rw [read_closed (c := s.channel.quiet) hsub hc woken] at hread
  rw [hrun, run_reader, hread]
  -- a reader that is done has its result, and other jobs are as they were
  have hdone (v : Value) {h₁ : Hub} (hj : h₁.jobs = h.jobs) (hready : h₁.ready = h.ready) :
      (finishJob r (.ok v) h₁).2.jobs[r]? = some { reader site n with result := some (.ok v) } ∧
        (∀ i, i ≠ r → (finishJob r (.ok v) h₁).2.jobs[i]? = h.jobs[i]?) ∧
        (finishJob r (.ok v) h₁).2.ready = h.ready := by
    refine ⟨?_, fun i hi => ?_, hready⟩
    · rw [jobs_finishJob, if_pos rfl, hj, hr]
      rfl
    · rw [jobs_finishJob, if_neg hi.symm, hj]
  unfold Subscription.serve
  cases hb : u.buffer with
  | nil =>
    cases woken with
    | false => exact ⟨(subscription?_set hs _).trans hsub, hdone .null rfl rfl⟩
    | true =>
      -- nothing is there, and the reader waits in line
      have hs₁ : (h.sites.set site
          { s with channel := s.channel.quiet.update n fun _ => u })[site]? =
          some { s with channel := s.channel.quiet.update n fun _ => u } :=
        List.getElem?_set_self (List.getElem?_eq_some_iff.1 hs).1
      simp only [if_true]
      rw [onChannel_of_woken_eq_nil (h := { h with sites := _ }) hs₁ rfl]
      refine ⟨(subscription?_set hs₁ _).trans ?_, hr, fun _ _ => rfl, rfl⟩
      rw [Channel.wait, Channel.subscription?_update, if_pos rfl, Channel.subscription?_quiet,
        Channel.subscription?_update, if_pos rfl, Channel.subscription?_quiet, hsub,
        Option.map_some, Option.map_some, hb]
  | cons b rest =>
    have hupdate : (s.channel.quiet.update n fun _ => { u with buffer := rest }).subscription? n =
        some { u with buffer := rest } := by
      rw [Channel.subscription?_update, if_pos rfl, Channel.subscription?_quiet, hsub,
        Option.map_some]
    have hset := (subscription?_set hs _).trans hupdate
    rcases b with _ | v
    · exact ⟨hset, hdone .null rfl rfl⟩
    · cases v <;> exact ⟨hset, hdone _ rfl rfl⟩

/-! ## Many turns -/

/-- Jobs have their turns, one after the other; of each is told whether it was woken. -/
def turns (l : List (Nat × Bool)) (h : Hub) : Hub := l.foldl (fun h p => (runJob p.1 p.2 h).2) h

/-- What the reader whose turn comes after a number of others is answered, if it is. -/
def answer? (buffer : List Buffered) (i : Nat) (woken : Bool) : Option Value :=
  match buffer[i]? with
  | some b => some (b.getD .null)
  | none => if woken then none else some .null

theorem answer?_serve (woken later : Bool) (r i : Nat) (u : Subscription) :
    (u.serve woken r).1 = answer? u.buffer 0 woken ∧
      answer? (u.serve woken r).2.buffer i later = answer? u.buffer (i + 1) later := by
  unfold Subscription.serve answer?
  cases hb : u.buffer with
  | nil => cases woken <;> simp [hb]
  | cons b rest => simp

theorem closed_serve (hc : u.closed = true) (woken : Bool) (r : Nat) :
    (u.serve woken r).2.closed = true := by
  unfold Subscription.serve
  split
  · exact hc
  · split <;> exact hc

/-- Readers had their turns at a subscription that is closed: each was answered in its turn or waits
again, jobs whose turn it was not are as they were, and none became ready. -/
structure Served (site n : Nat) (l : List (Nat × Bool)) (u : Subscription) (h h' : Hub) : Prop where
  left : ∃ v, h'.subscription? site n = some v ∧ v.closed = true ∧
    v.buffer = u.buffer.drop l.length ∧
    v.waiting = u.waiting ++ ((l.drop u.buffer.length).filter (·.2)).map (·.1)
  answers : ∀ (i : Nat) (p : Nat × Bool), l[i]? = some p → h'.jobs[p.1]? =
    some { reader site n with result := (answer? u.buffer i p.2).map .ok }
  others : ∀ r, h.attends site n r = true → r ∉ l.map (·.1) → h'.jobs[r]? = h.jobs[r]?
  ready : h'.ready = h.ready

/-- A reader that was answered is where it was. -/
theorem attends_runJob_reader (hu : h.subscription? site n = some u) (hc : u.closed = true)
    (hr : h.jobs[r]? = some (reader site n)) (woken : Bool) (i : Nat) :
    (runJob r woken h).2.attends site n i = h.attends site n i := by
  obtain ⟨-, hself, hothers, -⟩ := runJob_reader hu hc hr woken
  unfold attends
  by_cases hi : i = r
  · subst hi
    rw [hself, hr]
    rfl
  · rw [hothers i hi]

/-- Another job had its turn before. -/
theorem Served.after {l : List (Nat × Bool)} (hs : Served site n l u h₁ h₂) (hb : Beside site n h h₁) :
    Served site n l u h h₂ where
  left := hs.left
  answers := hs.answers
  others := fun r ha hr => (hs.others r (by rw [hb.attends, ha]) hr).trans (hb.jobs r ha)
  ready := hs.ready.trans hb.ready

/-- A reader had its turn before: what is left is as if it had been served before the others. -/
theorem Served.cons {l : List (Nat × Bool)} (hu : h.subscription? site n = some u)
    (hc : u.closed = true) (hr : h.jobs[r]? = some (reader site n)) (hq : h.attends site n r = true)
    {woken : Bool} (hnot : r ∉ l.map (·.1))
    (hs : Served site n l (u.serve woken r).2 (runJob r woken h).2 h₂) :
    Served site n ((r, woken) :: l) u h h₂ := by
  obtain ⟨-, hself, hothers, hready⟩ := runJob_reader hu hc hr woken
  have hattends := attends_runJob_reader hu hc hr woken
  refine ⟨?_, fun i p hp => ?_, fun j ha hj => ?_, hs.ready.trans hready⟩
  · obtain ⟨v, hv, hclosed, hbuffer, hwaiting⟩ := hs.left
    refine ⟨v, hv, hclosed, ?_, ?_⟩
    · rw [hbuffer]
      unfold Subscription.serve
      cases hb : u.buffer with
      | nil => cases woken <;> simp [hb]
      | cons b rest => simp
    · rw [hwaiting]
      unfold Subscription.serve
      cases hb : u.buffer with
      | nil => cases woken <;> simp [hb]
      | cons b rest => simp
  · cases i with
    | zero =>
      obtain rfl : (r, woken) = p := Option.some.inj hp
      have hlast := hs.others r (by rw [hattends, hq]) hnot
      exact hlast.trans (by rw [hself, (answer?_serve woken woken r 0 u).1])
    | succ i =>
      exact (hs.answers i p hp).trans (by rw [(answer?_serve woken p.2 r i u).2])
  · obtain ⟨hjr, hjl⟩ := not_or.1 (mt List.mem_cons.2 hj)
    exact (hs.others j (by rw [hattends, ha]) hjl).trans (hothers j hjr)

theorem turns_readers {l : List (Nat × Bool)} (hu : h.subscription? site n = some u)
    (hc : u.closed = true)
    (hr : ∀ p ∈ l, h.attends site n p.1 = true → h.jobs[p.1]? = some (reader site n))
    (hn : ((l.filter fun p => h.attends site n p.1).map (·.1)).Nodup) :
    Served site n (l.filter fun p => h.attends site n p.1) u h (turns l h) := by
  induction l generalizing h u with
  | nil =>
    exact ⟨⟨u, hu, hc, by simp, by simp⟩, fun i p hp => by simp at hp, fun _ _ _ => rfl, rfl⟩
  | cons p l ih =>
    obtain ⟨q, woken⟩ := p
    cases hq : h.attends site n q with
    | false =>
      have hb := beside_runJob hq woken
      have hsame : (fun p : Nat × Bool => (runJob q woken h).2.attends site n p.1) =
          fun p => h.attends site n p.1 := funext fun p => hb.attends p.1
      rw [List.filter_cons_of_neg (by simp [hq])] at hn ⊢
      have hrest := ih (h := (runJob q woken h).2) (hb.subscription.trans hu) hc (fun p hp ha => by
        rw [hb.attends] at ha
        rw [hb.jobs _ ha]
        exact hr p (List.mem_cons_of_mem _ hp) ha) (by rw [hsame]; exact hn)
      rw [hsame] at hrest
      exact hrest.after hb
    | true =>
      have hreader := hr (q, woken) List.mem_cons_self hq
      obtain ⟨hsub, -, hothers, -⟩ := runJob_reader hu hc hreader woken
      have hattends := attends_runJob_reader hu hc hreader woken
      rw [List.filter_cons_of_pos (by simp [hq])] at hn ⊢
      obtain ⟨hnot, hn'⟩ := List.nodup_cons.1 hn
      have hsame : (fun p : Nat × Bool => (runJob q woken h).2.attends site n p.1) =
          fun p => h.attends site n p.1 := funext fun p => hattends p.1
      -- no reader has two turns, so that the others are still readers
      have hne {p : Nat × Bool} (hp : p ∈ l) (ha : h.attends site n p.1 = true) : p.1 ≠ q := by
        rintro rfl
        exact hnot (List.mem_map.2 ⟨p, List.mem_filter.2 ⟨hp, ha⟩, rfl⟩)
      have hrest := ih (h := (runJob q woken h).2) hsub (closed_serve hc woken q) (fun p hp ha => by
        rw [hattends] at ha
        rw [hothers _ (hne hp ha)]
        exact hr p (List.mem_cons_of_mem _ hp) ha) (by rw [hsame]; exact hn')
      rw [hsame] at hrest
      exact hrest.cons hu hc hreader hq hnot

end Hub

end Kanban
