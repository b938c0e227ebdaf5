import Kanban.Proofs.Fleet.System
import Kanban.Proofs.Projection.Onward
import Kanban.Proofs.Server.Queue

/-!
# Kanban.Proofs.Fleet.Peer — one client among others

How one client stands to the server: the place of a card that it has agreed on becomes the server's
when it hears the events on their way, or it is the stray one. Its unsettled moves are in flight,
and a success in flight is of a move that is not live any more, unless the event that tells it is
still to be heard.

* `Sees` — how a client stands to the server.
* `Sees.serve`, `Sees.begin`, `Sees.hear`, `Sees.receive` — it stands so after every step.
-/

namespace Kanban

namespace Projection

variable {p : Projection} {n : Nat} {m : Move}

/-! ## Learning an outcome -/

theorem settles_learn (hm : Entries.get? n p.moves = some m)
    (outcome : Except Reason (Key × Float)) : Settles n p (p.learn n outcome) := by
  cases outcome with
  | ok z => exact settles_confirm hm (some z.1) (.real z.2)
  | error e => exact settles_rollback hm (some e)

theorem sound_learn (h : p.Sound) (n : Nat) (outcome : Except Reason (Key × Float)) :
    (p.learn n outcome).Sound := by
  cases outcome with
  | ok z => exact sound_confirm h n (some z.1) rfl
  | error e => exact sound_rollback h n (some e)

/-- A success that is learnt of a move that is not live is taken for the place of the card if a
live move has replaced the move, and changes nothing else. -/
theorem agreed?_learn (h : p.Sound) (hm : Entries.get? n p.moves = some m)
    (hl : ∀ l, p.live? m.card = some l → l.id ≠ n) (stage : Key) (x : Float) (c : String) :
    (p.learn n (.ok (stage, x))).agreed? c =
      if c = m.card ∧ p.hasHeir n then (p.agreed? c).map fun _ => (stage, .real x)
      else p.agreed? c := by
  have hheir : p.hasHeir n = (m.state = .optimistic && (p.heir? m).isSome) := by
    rw [hasHeir, hm, Option.any_some]
  rw [hheir, learn]
  by_cases ho : m.state = .optimistic
  · -- the move is not the live one of its card
    have hnot : c = m.card → p.live? c ≠ some m := by
      rintro rfl hlive
      exact hl m hlive (h.ledger.numbered hm).1
    rw [agreed?_confirm h hm ho (some stage) rfl c]
    by_cases hc : c = m.card
    · simp [hc, ho, hc ▸ hnot hc]
    · simp [hc]
  · rw [confirm_settled hm ho]
    simp [ho]

/-- What is learnt of a move leaves an agreed place alone, or replaces that of its card. -/
theorem agreed?_learn_or (h : p.Sound) (hm : Entries.get? n p.moves = some m)
    (outcome : Except Reason (Key × Float)) (c : String) :
    (p.learn n outcome).agreed? c = p.agreed? c ∨
      c = m.card ∧ ∃ z, (p.learn n outcome).agreed? c = (p.agreed? c).map fun _ => z := by
  cases outcome with
  | error e => exact .inl (agreed?_rollback h n (some e) c)
  | ok z =>
    by_cases ho : m.state = .optimistic
    · have hconfirm := agreed?_confirm h hm ho (some z.1) (x := .real z.2) rfl c
      split at hconfirm
      · rename_i hc
        exact .inr ⟨hc.1, _, hconfirm⟩
      · exact .inl hconfirm
    · exact .inl (by rw [learn, confirm_settled hm ho])

end Projection

open Projection (Spot)
open Server (Listens Holds)

namespace Fleet

variable {account : String} {board : Key}

/-! ## How a client stands to the server -/

/-- How a client stands to the server, with the errands and answers in flight, the stray places,
and the notices that its subscription holds. -/
structure Sees (account : String) (board : Key) (s : Server) (es : List Errand) (as : List Answer)
    (astray : String → Option Spot) (i : Nat) (p : Peer) (ns : List Notice) (sub : Subscription) :
    Prop where
  sound : p.view.Sound
  found : s.channel.subscription? p.number = some sub
  listens : Listens account board sub
  unbounded : sub.size ≤ 0
  holds : Holds ns sub
  moves : ∀ n ∈ ns, n.isMove
  agreed : ∀ c, (p.view.agreed? c).map (Notice.carryAll c ns) =
    (astray c).or (s.shown? account board c)
  shown : ∀ c, (astray c).isSome → (s.shown? account board c).isSome
  /-- What is in flight is about moves that the client has made. -/
  known : ∀ e ∈ es, e.peer = i →
    ∃ m, Entries.get? e.move p.view.moves = some m ∧ m.card = e.card
  /-- Moves that wait for their outcome are in flight. -/
  underway : ∀ {n m}, Entries.get? n p.view.moves = some m → m.state = .optimistic →
    ∃ e ∈ es, e.peer = i ∧ e.move = n
  /-- A success is told by an event; once that is heard, the move is not live. -/
  told : ∀ a ∈ as, a.peer = i → ∀ z, a.outcome = .ok z →
    (∃ n ∈ ns, n.tells a.card) ∨ ∀ l, p.view.live? a.card = some l → l.id ≠ a.move

variable {s t : Server} {es es' : List Errand} {as as' : List Answer}
  {astray astray' : String → Option Spot} {i : Nat} {p : Peer} {ns : List Notice}
  {sub : Subscription} {note : Option Notice}

/-- A client shows the cards of the board. -/
theorem Sees.isSome (h : Sees account board s es as astray i p ns sub) (c : String) :
    (p.view.spot? c).isSome = (s.shown? account board c).isSome := by
  have ha := congrArg Option.isSome (h.agreed c)
  rw [Option.isSome_map, Projection.isSome_agreed?] at ha
  rw [ha]
  cases hz : astray c with
  | none => rfl
  | some z => exact (h.shown c (by simp [hz])).symm

/-! ## Steps of the server -/

/-- The server does something, and tells the client of it. -/
theorem Sees.serve (h : Sees account board s es as astray i p ns sub)
    (hshown : ∀ c, t.shown? account board c =
      (s.shown? account board c).map (Notice.carryAll c note.toList))
    (hfound : t.channel.subscription? p.number = some (Server.tell note sub))
    (hnote : ∀ n, note = some n → n.isMove)
    (hes : ∀ e, e.peer = i → (e ∈ es' ↔ e ∈ es))
    (has : ∀ a ∈ as', a.peer = i → ∀ z, a.outcome = .ok z →
      a ∈ as ∨ ∃ n, note = some n ∧ n.tells a.card)
    (hastray : ∀ c, astray' c = if note.any (·.tells c) then none else astray c) :
    Sees account board t es' as' astray' i p (ns ++ note.toList) (Server.tell note sub) where
  sound := h.sound
  found := hfound
  listens := Server.listens_tell h.listens
  unbounded := (Server.size_tell note sub).symm ▸ h.unbounded
  holds := Server.kept_of_unbounded h.unbounded note ns ▸ (Server.holds_tell h.holds note).1
  moves := by
    intro n hn
    rcases List.mem_append.1 hn with hn | hn
    · exact h.moves n hn
    · exact hnote n (by simpa using hn)
  agreed := by
    intro c
    -- first what was on its way, then what is told
    have hall : (p.view.agreed? c).map (Notice.carryAll c (ns ++ note.toList)) =
        ((astray c).or (s.shown? account board c)).map (Notice.carryAll c note.toList) := by
      rw [← h.agreed c, Option.map_map]
      congr 1
      funext z
      exact Notice.carryAll_append c ns note.toList z
    rw [hall, hshown, hastray]
    cases hz : astray c with
    | none => simp
    | some z =>
      have hs := h.shown c (by simp [hz])
      obtain ⟨y, hy⟩ := Option.isSome_iff_exists.1 hs
      cases hn : note with
      | none => simp
      | some n =>
        by_cases hc : n.tells c
        · -- wherever the client took the card to be, it is told the place now
          simp [hc, hy, Notice.carry_of_tells hc z y]
        · have hstay : Notice.carryAll c [n] z = z :=
            Notice.carryAll_of_not_tells (by simpa using hnote n hn) (by simpa using hc) z
          simpa [hc] using hstay
  shown := by
    intro c hc
    rw [hastray] at hc
    rw [hshown, Option.isSome_map]
    split at hc
    · simp at hc
    · exact h.shown c hc
  known := fun e he hi => h.known e ((hes e hi).1 he) hi
  underway := by
    intro n m hm ho
    obtain ⟨e, he, hi, hn⟩ := h.underway hm ho
    exact ⟨e, (hes e hi).2 he, hi, hn⟩
  told := by
    intro a ha hi z hz
    rcases has a ha hi z hz with ha | ⟨n, hn, ht⟩
    · rcases h.told a ha hi z hz with ⟨n, hn, ht⟩ | hl
      · exact .inl ⟨n, List.mem_append_left _ hn, ht⟩
      · exact .inr hl
    · exact .inl ⟨n, List.mem_append_right _ (by simp [hn]), ht⟩

/-- Nothing that concerns the client has changed. -/
theorem Sees.frame (h : Sees account board s es as astray i p ns sub)
    (hshown : ∀ c, t.shown? account board c = s.shown? account board c)
    (hfound : t.channel.subscription? p.number = s.channel.subscription? p.number)
    (hes : ∀ e, e.peer = i → (e ∈ es' ↔ e ∈ es))
    (has : ∀ a ∈ as', a.peer = i → ∀ z, a.outcome = .ok z → a ∈ as)
    (hastray : ∀ c, astray' c = astray c) :
    Sees account board t es' as' astray' i p ns sub := by
  have hserve : Sees account board t es' as' astray' i p (ns ++ (none : Option Notice).toList)
      (Server.tell none sub) :=
    h.serve (fun c => (hshown c).trans (Server.map_carryAll_nil c _).symm)
      (hfound.trans h.found) (by simp) hes (fun a ha hi z hz => .inl (has a ha hi z hz))
      (by simpa using hastray)
  simpa [Server.tell] using hserve

/-! ## Steps of the client -/

/-- The client starts a move of a card that it shows. -/
theorem Sees.begin (h : Sees account board s es as astray i p ns sub) {card : String}
    (hc : (p.view.spot? card).isSome) (now : Float) (target : String) (d : Directive)
    (hknown : ∀ a ∈ as, a.toErrand ∈ es) :
    ∃ n view source, p.view.begin now card (.text target) d p.source = (.ok n, view, source) ∧
      ∀ es', (∀ e, e ∈ es' ↔ e ∈ es ∨ e = ⟨i, n, card⟩) →
        Sees account board s es' as astray i { p with view, source } ns sub := by
  have hname : (Value.text target).isName = true := rfl
  obtain ⟨n, view, source, hb, hbegun⟩ := Projection.begun h.sound hc now hname d p.source
  have hview : view = (p.view.begin now card (.text target) d p.source).2.1 := by rw [hb]
  refine ⟨n, view, source, hb, fun es' hes => ?_⟩
  exact {
    sound := hview ▸ Projection.sound_begin h.sound now card hname d p.source
    found := h.found
    listens := h.listens
    unbounded := h.unbounded
    holds := h.holds
    moves := h.moves
    agreed := by
      intro c
      have hagreed : view.agreed? c = p.view.agreed? c :=
        hview ▸ Projection.agreed?_begin h.sound now card hname d p.source c
      exact (congrArg (Option.map _) hagreed).trans (h.agreed c)
    shown := h.shown
    known := by
      intro e he hi
      rcases (hes e).1 he with he | rfl
      · obtain ⟨m, hm, hcard⟩ := h.known e he hi
        obtain ⟨m', hm', hcard'⟩ := hbegun.kept hm
        exact ⟨m', hm', hcard'.trans hcard⟩
      · exact hbegun.added
    underway := by
      intro k m hm ho
      rcases hbegun.unsettled hm ho with rfl | ⟨m', hm', ho'⟩
      · exact ⟨_, (hes _).2 (.inr rfl), rfl, rfl⟩
      · obtain ⟨e, he, hi, hk⟩ := h.underway hm' ho'
        exact ⟨e, (hes e).2 (.inl he), hi, hk⟩
    told := by
      intro a ha hi z hz
      refine (h.told a ha hi z hz).imp id fun hl l hlive => ?_
      rcases hbegun.live hlive with hid | hlive
      · -- the new move has a number of its own
        obtain ⟨m, hm, -⟩ := h.known _ (hknown a ha) hi
        intro heq
        rw [← heq, hid, hbegun.fresh] at hm
        simp at hm
      · exact hl l hlive }

/-- The client hears the next event. -/
theorem Sees.hear {n : Notice} (h : Sees account board s es as astray i p (n :: ns) sub)
    (hshown : ∀ c, t.shown? account board c = s.shown? account board c)
    (hfound : t.channel.subscription? p.number = some (Server.taken sub)) :
    Sees account board t es as astray i { p with view := (p.view.heed n).2 } ns
      (Server.taken sub) := by
  obtain ⟨c₀, stage, x, rfl⟩ : ∃ c stage x, n = .moved c stage x := by
    cases n with
    | moved c stage x => exact ⟨c, stage, x, rfl⟩
    | folded => simpa [Notice.isMove] using h.moves _ List.mem_cons_self
  have honward := Projection.onward_remoteMove c₀ (.text stage) x p.view
  exact {
    sound := Projection.sound_heed h.sound _
    found := hfound
    listens := Server.listens_taken h.listens
    unbounded := h.unbounded
    holds := Server.holds_taken h.holds
    moves := fun m hm => h.moves m (List.mem_cons_of_mem _ hm)
    agreed := by
      intro c
      have hheed := Projection.agreed?_heed h.sound (.moved c₀ stage x) c
      rw [hshown, ← h.agreed c]
      dsimp only
      rw [hheed, Option.map_map]
      rfl
    shown := fun c hc => (hshown c).symm ▸ h.shown c hc
    known := by
      intro e he hi
      obtain ⟨m, hm, hcard⟩ := h.known e he hi
      obtain ⟨m', hm', hcard'⟩ := honward.kept hm
      exact ⟨m', hm', hcard'.trans hcard⟩
    underway := by
      intro k m hm ho
      obtain ⟨m', hm', ho'⟩ := honward.unsettled hm ho
      exact h.underway hm' ho'
    told := by
      intro a ha hi z hz
      rcases h.told a ha hi z hz with ⟨m, hm, ht⟩ | hl
      · rcases List.mem_cons.1 hm with rfl | hm
        · -- the event of the success itself, or of a later move: nothing of the card is live now
          have hcard : a.card = c₀ := by simpa [Notice.tells] using ht
          have hnone := Projection.live?_remoteMove h.sound.ledger c₀ (.text stage) x a.card
          rw [if_pos hcard] at hnone
          refine .inr fun l hlive => ?_
          have hlive' : (p.view.remoteMove c₀ (.text stage) x).2.live? a.card = some l := hlive
          simp [hnone] at hlive'
        · exact .inl ⟨m, hm, ht⟩
      · refine .inr fun l hlive => ?_
        obtain ⟨l', hl', hid⟩ := honward.live hlive
        exact hid ▸ hl l' hl' }

/-! ## Late answers -/

/-- What the client waits for is what its subscription holds. -/
theorem Sees.awaits (h : Sees account board s es as astray i p ns sub) (c : String) :
    awaits c p s = ns.any (·.tells c) := by
  have habout (n : Notice) : isAbout c (some n.toValue) = n.tells c := by
    cases n with
    | moved c' stage x =>
      have hget : Entries.get? "card_id" ([("event", .text "card_moved"), ("card_id", .text c'),
          ("stage_key", .text stage), ("position", .real x)] : Entries String Value) =
            some (.text c') := rfl
      simp [isAbout, Notice.toValue, Notice.tells, hget, eq_comm]
    | folded stage fallback =>
      have hget : Entries.get? "card_id" ([("event", .text "stage_deactivated"),
          ("stage_key", .text stage), ("fallback_stage_key", .text fallback)] :
            Entries String Value) = none := rfl
      simp [isAbout, Notice.toValue, Notice.tells, hget]
  have hbuf : sub.buffer = ns.map fun n => some n.toValue := h.holds
  rw [Fleet.awaits, h.found, Option.any_some, hbuf, List.any_map]
  congr 1
  funext n
  exact habout n

/-- What a client has agreed on once it has learnt an answer: what is on its way still leads to the
server's place, unless the answer is late. -/
theorem Sees.agreed_learn (h : Sees account board s es as astray i p ns sub) {a : Answer}
    (ha : a ∈ as) (he : a.toErrand ∈ es) (hi : a.peer = i)
    (hshown : (s.shown? account board a.card).isSome) (c : String) :
    ((p.view.learn a.move a.outcome).agreed? c).map (Notice.carryAll c ns) =
      (a.astray (p.view.hasHeir a.move && !Fleet.awaits a.card p s) c (astray c)).or
        (s.shown? account board c) := by
  obtain ⟨m, hm, hcard⟩ := h.known _ he hi
  have hcard' : m.card = a.card := hcard
  unfold Answer.astray
  rcases hout : a.outcome with e | ⟨stage, x⟩
  · -- a failure leaves agreed places alone
    have hroll := Projection.agreed?_rollback h.sound a.move (some e) c
    dsimp only
    rw [← h.agreed c, ← hroll]
    rfl
  · dsimp only
    by_cases hc : a.card = c
    · subst hc
      cases hw : ns.any (·.tells a.card) with
      | true =>
        -- what was told of the card is still to be heard, and counts alone
        have ht : ∃ n ∈ ns, n.tells a.card := by simpa using hw
        rw [h.awaits, hw, if_neg (by simp), ← h.agreed a.card]
        rcases Projection.agreed?_learn_or h.sound hm (.ok (stage, x)) a.card with
          hsame | ⟨-, z, hset⟩
        · rw [hsame]
        · rw [hset, Option.map_map]
          cases p.view.agreed? a.card with
          | none => rfl
          | some y => exact congrArg some (Notice.carryAll_of_tells ht z y)
      | false =>
        -- the event of the success was heard, and so the move is not live
        have hnot : ∀ n ∈ ns, n.tells a.card = false := by simpa using hw
        have hlive : ∀ l, p.view.live? m.card = some l → l.id ≠ a.move := by
          rw [hcard']
          rcases h.told a ha hi _ hout with ⟨n, hn, ht⟩ | hl
          · simp [hnot n hn] at ht
          · exact hl
        have hlearn := Projection.agreed?_learn h.sound hm hlive stage x a.card
        rw [h.awaits, hw, hlearn]
        cases hh : p.view.hasHeir a.move with
        | false =>
          rw [if_neg (by simp), if_neg (by simp)]
          exact h.agreed a.card
        | true =>
          have hsome : (p.view.agreed? a.card).isSome := by
            rw [Projection.isSome_agreed?, h.isSome]
            exact hshown
          obtain ⟨y, hy⟩ := Option.isSome_iff_exists.1 hsome
          rw [if_pos ⟨hcard'.symm, rfl⟩, if_pos (by simp), hy]
          exact congrArg some (Notice.carryAll_of_not_tells h.moves hnot _)
    · -- another card
      have hne : c ≠ m.card := fun heq => hc (hcard'.symm.trans heq.symm)
      have hsame := (Projection.agreed?_learn_or h.sound hm (.ok (stage, x)) c).resolve_right
        fun hor => hne hor.1
      rw [hsame, if_neg (by simp [hc])]
      exact h.agreed c

/-- The client learns the outcome of one of its moves. -/
theorem Sees.receive (h : Sees account board s es as astray i p ns sub) {a : Answer}
    (ha : a ∈ as) (he : a.toErrand ∈ es) (hi : a.peer = i)
    (hshown : (s.shown? account board a.card).isSome)
    (hes : ∀ e ∈ es', e ∈ es) (hes' : ∀ e ∈ es, e.peer = i → e.move ≠ a.move → e ∈ es')
    (has : ∀ b ∈ as', b ∈ as)
    (hastray : ∀ c, astray' c =
      a.astray (p.view.hasHeir a.move && !Fleet.awaits a.card p s) c (astray c)) :
    Sees account board s es' as' astray' i { p with view := p.view.learn a.move a.outcome } ns
      sub := by
  obtain ⟨m, hm, -⟩ := h.known _ he hi
  have hsettles := Projection.settles_learn hm a.outcome
  exact {
    sound := Projection.sound_learn h.sound a.move a.outcome
    found := h.found
    listens := h.listens
    unbounded := h.unbounded
    holds := h.holds
    moves := h.moves
    agreed := fun c => (hastray c).symm ▸ h.agreed_learn ha he hi hshown c
    shown := by
      intro c hc
      rw [hastray, Answer.astray] at hc
      split at hc
      · split at hc
        · rename_i hcard
          exact hcard.1 ▸ hshown
        · exact h.shown c hc
      · exact h.shown c hc
    known := by
      intro e he' hi'
      obtain ⟨m', hm', hcard⟩ := h.known e (hes e he') hi'
      obtain ⟨m'', hm'', hcard'⟩ := hsettles.onward.kept hm'
      exact ⟨m'', hm'', hcard'.trans hcard⟩
    underway := by
      intro k m' hm' ho
      -- the move of the answer is settled now; all others are still in flight
      have hne : k ≠ a.move := by
        rintro rfl
        exact hsettles.settled hm' ho
      obtain ⟨m'', hm'', ho'⟩ := hsettles.onward.unsettled hm' ho
      obtain ⟨e, he', hi', hk⟩ := h.underway hm'' ho'
      exact ⟨e, hes' e he' hi' (hk ▸ hne), hi', hk⟩
    told := by
      intro b hb hi' z hz
      refine (h.told b (has b hb) hi' z hz).imp id fun hl l hlive => ?_
      obtain ⟨l', hl', hid⟩ := hsettles.onward.live hlive
      exact hid ▸ hl l' hl' }

end Fleet

end Kanban
