import Kanban.Proofs.Fleet.Peer

/-!
# Kanban.Proofs.Fleet.Steps — every step keeps clients and server together

What holds of a board that clients share, and that it holds after every act: most acts concern one
client, and the others do not notice; the server concerns all.

* `Inv` — how all clients stand to the server.
* `Inv.turn`, `Inv.serve` — acts of one client, and of the server.
* `step_inv` — every act keeps this.
-/

namespace Kanban

open Projection (Spot)
open Server (Keeps Step)

namespace Fleet

variable {account : String} {board : Key}

/-- The invariant of a board that clients share. -/
structure Inv (account : String) (board : Key) (w : World) (astray : Nat → String → Option Spot) :
    Prop where
  keeps : w.server.Keeps account board
  numbers : (w.peers.map (·.number)).Nodup
  shown : ∀ e ∈ w.errands, (w.server.shown? account board e.card).isSome
  sees : ∀ {i p}, w.peers[i]? = some p →
    ∃ ns sub, Sees account board w.server w.errands w.answers (astray i) i p ns sub

/-! ## Steps -/

variable {w : World} {astray : Nat → String → Option Spot}

theorem mem_map_of_eraseIdx {α β : Type} {xs : List α} {j : Nat} {x : α} (hx : xs[j]? = some x)
    (f : α → β) (y : β) : y ∈ xs.map f ↔ y = f x ∨ y ∈ (xs.eraseIdx j).map f := by
  obtain ⟨hj, rfl⟩ := List.getElem?_eq_some_iff.1 hx
  rw [← ((List.getElem_cons_eraseIdx_perm hj).map f).mem_iff, List.map_cons, List.mem_cons]

theorem set_of_getElem? {α : Type} {xs : List α} {i : Nat} {x : α} (hx : xs[i]? = some x) :
    xs.set i x = xs := by
  obtain ⟨hi, rfl⟩ := List.getElem?_eq_some_iff.1 hx
  exact List.set_getElem_self hi

theorem map_set_of_getElem? {α β : Type} {xs : List α} {i : Nat} {x y : α} {f : α → β}
    (hx : xs[i]? = some x) (hf : f y = f x) : (xs.set i y).map f = xs.map f := by
  have hget : (xs.map f)[i]? = some (f x) := by rw [List.getElem?_map, hx, Option.map_some]
  rw [List.map_set, hf, set_of_getElem? hget]

/-- One client and what concerns it change, and the server and the other clients do not notice. -/
theorem Inv.turn (h : Inv account board w astray) {i : Nat} {p p' : Peer}
    (hp : w.peers[i]? = some p) {w' : World} {astray' : Nat → String → Option Spot}
    (hpeers : w'.peers = w.peers.set i p') (hnumber : p'.number = p.number)
    (hkeeps : w'.server.Keeps account board)
    (hshown : ∀ c, w'.server.shown? account board c = w.server.shown? account board c)
    (hfound : ∀ n, n ≠ p.number →
      w'.server.channel.subscription? n = w.server.channel.subscription? n)
    (hes : ∀ e, e.peer ≠ i → (e ∈ w'.errands ↔ e ∈ w.errands))
    (has : ∀ a ∈ w'.answers, a ∈ w.answers)
    (hastray : ∀ k, k ≠ i → ∀ c, astray' k c = astray k c)
    (hcards : ∀ e ∈ w'.errands, (w'.server.shown? account board e.card).isSome)
    (hsees : ∃ ns sub, Sees account board w'.server w'.errands w'.answers (astray' i) i p' ns sub) :
    Inv account board w' astray' where
  keeps := hkeeps
  numbers := by
    rw [hpeers, map_set_of_getElem? hp hnumber]
    exact h.numbers
  shown := hcards
  sees := by
    intro k q hq
    rw [hpeers, List.getElem?_set] at hq
    split at hq
    · rename_i hk
      split at hq
      · obtain rfl := Option.some.inj hq
        exact hk ▸ hsees
      · simp at hq
    · rename_i hk
      obtain ⟨ns, sub, hs⟩ := h.sees hq
      -- no two clients have one subscription
      have hne : q.number ≠ p.number := by
        intro heq
        have hq' : (w.peers.map (·.number))[k]? = some q.number := by simp [hq]
        have hp' : (w.peers.map (·.number))[i]? = some p.number := by simp [hp]
        obtain ⟨hlt, -⟩ := List.getElem?_eq_some_iff.1 hp'
        exact hk ((List.getElem?_inj hlt h.numbers).1 (hp'.trans (heq ▸ hq'.symm)))
      exact ⟨ns, sub, hs.frame hshown (hfound _ hne) (fun e he => hes e (he ▸ Ne.symm hk))
        (fun a ha _ _ _ => has a ha) (hastray k (Ne.symm hk))⟩

/-- The server does something, and tells all clients of it. -/
theorem Inv.serve (h : Inv account board w astray) {t : Server} {note : Option Notice}
    (hstep : Step account board note w.server t) (hnote : ∀ n, note = some n → n.isMove)
    {w' : World} {astray' : Nat → String → Option Spot} (hserver : w'.server = t)
    (hpeers : w'.peers = w.peers) (hes : ∀ e, e ∈ w'.errands ↔ e ∈ w.errands)
    (has : ∀ a ∈ w'.answers, ∀ z, a.outcome = .ok z →
      a ∈ w.answers ∨ ∃ n, note = some n ∧ n.tells a.card)
    (hastray : ∀ i c, astray' i c = if note.any (·.tells c) then none else astray i c) :
    Inv account board w' astray' where
  keeps := hserver ▸ hstep.keeps
  numbers := hpeers ▸ h.numbers
  shown := by
    intro e he
    rw [hserver, hstep.told.shown, Option.isSome_map]
    exact h.shown e ((hes e).1 he)
  sees := by
    intro i p hp
    obtain ⟨ns, sub, hs⟩ := h.sees (hpeers ▸ hp)
    exact ⟨_, _, hs.serve (hserver ▸ hstep.told.shown)
      (hserver ▸ hstep.told.heard _ sub hs.found hs.listens) hnote (fun e _ => hes e)
      (fun a ha _ z hz => has a ha z hz) (hastray i)⟩

theorem mem_errands_of_answer {a : Answer} (ha : a ∈ w.answers) : a.toErrand ∈ w.errands :=
  List.mem_append_right _ (List.mem_map_of_mem ha)

theorem mem_errands_of_request {r : Request} (hr : r ∈ w.requests) : r.toErrand ∈ w.errands :=
  List.mem_append_left _ (List.mem_map_of_mem hr)

/-- What is in flight is what an answer is about, and what remains without it. -/
theorem mem_errands_received {j : Nat} {a : Answer} (ha : w.answers[j]? = some a) (e : Errand) :
    e ∈ w.errands ↔ e = a.toErrand ∨
      e ∈ w.requests.map (·.toErrand) ++ (w.answers.eraseIdx j).map (·.toErrand) := by
  rw [World.errands, List.mem_append, List.mem_append, mem_map_of_eraseIdx ha, or_left_comm]

/-- A request that was answered is still what it was about. -/
theorem mem_errands_answered {j : Nat} {r : Request} (hr : w.requests[j]? = some r) (s : Server)
    (outcome : Except Reason (Key × Float)) (e : Errand) :
    e ∈ World.errands { w with
      server := s
      requests := w.requests.eraseIdx j
      answers := w.answers ++ [{ r with outcome }] } ↔ e ∈ w.errands := by
  have hreq := mem_map_of_eraseIdx hr (·.toErrand) e
  simp only [World.errands, List.mem_append, List.map_append, List.map_cons, List.map_nil,
    List.mem_singleton, hreq]
  tauto

theorem inv_begin (h : Inv account board w astray) (i : Nat) (now : Float) (card target : String)
    (d : Directive) : Inv account board (step account board w (.begin i now card target d)) astray := by
  cases hp : w.peers[i]? with
  | none =>
    simp only [step, hp]
    exact h
  | some p =>
    obtain ⟨ns, sub, hs⟩ := h.sees hp
    cases hc : p.view.spot? card with
    | none =>
      -- a card that the client does not show
      have hb := Projection.begin_absent (Projection.locate_eq_none_of_spot? hs.sound.tidy hc) now
        (.text target) d p.source
      simp only [step, hp, hb, set_of_getElem? hp]
      exact h
    | some z =>
      obtain ⟨n, view, source, hb, hsees⟩ := hs.begin (Option.isSome_of_eq_some hc) now target d
        fun _ => mem_errands_of_answer
      -- one more request
      have hes (e : Errand) : e ∈ (step account board w (.begin i now card target d)).errands ↔
          e ∈ w.errands ∨ e = ⟨i, n, card⟩ := by
        simp only [step, hp, hb, World.errands, List.mem_append, List.map_append, List.map_cons,
          List.map_nil, List.mem_singleton]
        tauto
      have hstep : step account board w (.begin i now card target d) = { w with
          peers := w.peers.set i { p with view, source }
          requests := w.requests ++ [{ peer := i, move := n, card, target, directive := d }] } := by
        simp only [step, hp, hb]
      rw [hstep] at hes ⊢
      refine h.turn hp rfl rfl h.keeps (fun _ => rfl) (fun _ _ => rfl) (fun e he => ?_)
        (fun _ ha => ha) (fun _ _ _ => rfl) (fun e he => ?_) ⟨ns, sub, hsees _ hes⟩
      · rw [hes]
        constructor
        · rintro (hmem | rfl)
          · exact hmem
          · exact absurd rfl he
        · exact .inl
      · rcases (hes e).1 he with hmem | rfl
        · exact h.shown e hmem
        · have hshown : (w.server.shown? account board card).isSome := by
            rw [← hs.isSome, hc]
            rfl
          exact hshown

theorem inv_serve (h : Inv account board w astray) (j : Nat) (now : Float) :
    Inv account board (step account board w (.serve j now)) fun i c =>
      stray account board i c w (astray i c) (.serve j now) := by
  cases hr : w.requests[j]? with
  | none =>
    simp only [step, stray, hr]
    exact h
  | some r =>
    have hshown := h.shown _ (mem_errands_of_request (List.mem_of_getElem? hr))
    obtain ⟨note, hstep, herr, hok⟩ :=
      Server.run_told h.keeps hshown now (.text r.target) r.directive
    simp only [step, stray, hr]
    -- either the request failed and nothing is told, or the card was moved and that is told
    cases hres : (process account board now r w.server).1 with
    | error e =>
      obtain rfl := herr e hres
      refine h.serve hstep (by simp) rfl rfl (mem_errands_answered hr _ _) (fun a ha z hz => ?_)
        (by simp)
      rcases List.mem_append.1 ha with ha | ha
      · exact .inl ha
      · obtain rfl := List.mem_singleton.1 ha
        simp [outcome] at hz
    | ok c =>
      obtain ⟨hid, k, -, rfl⟩ := hok c hres
      refine h.serve hstep (by simp [Notice.isMove]) rfl rfl (mem_errands_answered hr _ _)
        (fun a ha z hz => ?_) (fun i d => ?_)
      · rcases List.mem_append.1 ha with ha | ha
        · exact .inl ha
        · obtain rfl := List.mem_singleton.1 ha
          exact .inr ⟨_, rfl, by simp [Notice.tells]⟩
      · simp [Notice.tells, hid, eq_comm]

/-- Nothing but what is in flight changes, and no success is added. -/
theorem Inv.relabel (h : Inv account board w astray) {w' : World}
    (hserver : w'.server = w.server) (hpeers : w'.peers = w.peers)
    (hes : ∀ e, e ∈ w'.errands ↔ e ∈ w.errands)
    (has : ∀ a ∈ w'.answers, ∀ z, a.outcome = .ok z → a ∈ w.answers) :
    Inv account board w' astray :=
  h.serve (Server.step_refl h.keeps) (by simp) hserver hpeers hes
    (fun a ha z hz => .inl (has a ha z hz)) (by simp)

theorem inv_loseRequest (h : Inv account board w astray) (j : Nat) (e : Reason) :
    Inv account board (step account board w (.loseRequest j e)) astray := by
  cases hr : w.requests[j]? with
  | none =>
    simp only [step, hr]
    exact h
  | some r =>
    simp only [step, hr]
    refine h.relabel rfl rfl (mem_errands_answered hr _ _) fun a ha z hz => ?_
    rcases List.mem_append.1 ha with ha | ha
    · exact ha
    · obtain rfl := List.mem_singleton.1 ha
      simp at hz

theorem inv_loseAnswer (h : Inv account board w astray) (j : Nat) (e : Reason) :
    Inv account board (step account board w (.loseAnswer j e)) astray := by
  cases ha : w.answers[j]? with
  | none =>
    simp only [step, ha]
    exact h
  | some a =>
    simp only [step, ha]
    refine h.relabel rfl rfl (fun d => ?_) fun b hb z hz => ?_
    · -- what the answer is about stays
      have hmap : (w.answers.set j { a with outcome := .error e }).map (·.toErrand) =
          w.answers.map (·.toErrand) := map_set_of_getElem? ha rfl
      simp only [World.errands, hmap]
    · rcases List.mem_or_eq_of_mem_set hb with hb | rfl
      · exact hb
      · simp at hz

theorem inv_hear (h : Inv account board w astray) (i : Nat) :
    Inv account board (step account board w (.hear i)) astray := by
  cases hp : w.peers[i]? with
  | none =>
    simp only [step, hp]
    exact h
  | some p =>
    obtain ⟨ns, sub, hs⟩ := h.sees hp
    have hread := Server.read_held hs.found hs.listens hs.holds
    have htaken := Server.subscription?_taken hs.found
    have hkeeps := h.keeps.withChannel (Channel.exact_take h.keeps.exact p.number)
    have hothers (n : Nat) (hn : n ≠ p.number) :
        (w.server.channel.take p.number).2.subscription? n = w.server.channel.subscription? n := by
      rw [Channel.subscription?_take, if_neg hn]
    cases ns with
    | nil =>
      simp only [step, hp, hread]
      -- taking from an empty buffer changes nothing
      have hsame : Server.taken sub = sub := by
        have hbuf : sub.buffer = [] := hs.holds
        rw [Server.taken, hbuf, List.tail_nil, ← hbuf]
      refine h.turn hp (set_of_getElem? hp).symm rfl hkeeps (fun _ => rfl) hothers (fun _ _ => .rfl) (fun _ ha => ha)
        (fun _ _ _ => rfl) h.shown ⟨[], sub, ?_⟩
      exact hs.frame (fun _ => rfl) (htaken.trans (hsame.symm ▸ hs.found.symm)) (fun _ _ => .rfl)
        (fun _ ha _ _ _ => ha) fun _ => rfl
    | cons m ns =>
      have happly := congrArg Prod.snd (Projection.applyEvent_notice hs.sound m)
      simp only [step, hp, hread, happly]
      exact h.turn hp rfl rfl hkeeps (fun _ => rfl) hothers (fun _ _ => .rfl) (fun _ ha => ha)
        (fun _ _ _ => rfl) h.shown ⟨ns, _, hs.hear (fun _ => rfl) htaken⟩

theorem astray_of_not_late (a : Answer) (c : String) (z : Option Spot) :
    a.astray false c z = z := by
  unfold Answer.astray
  split <;> simp

theorem inv_receive (h : Inv account board w astray) (j : Nat) :
    Inv account board (step account board w (.receive j)) fun i c =>
      stray account board i c w (astray i c) (.receive j) := by
  cases ha : w.answers[j]? with
  | none =>
    simp only [step, stray, ha]
    exact h
  | some a =>
    have hmem := List.mem_of_getElem? ha
    -- one answer less, and what it was about
    have hless (e : Errand) (he : e ∈ w.requests.map (·.toErrand) ++
        (w.answers.eraseIdx j).map (·.toErrand)) : e ∈ w.errands :=
      (mem_errands_received ha e).2 (.inr he)
    have hmore (e : Errand) (he : e ∈ w.errands) (hne : e ≠ a.toErrand) :
        e ∈ w.requests.map (·.toErrand) ++ (w.answers.eraseIdx j).map (·.toErrand) :=
      ((mem_errands_received ha e).1 he).resolve_left hne
    have hother (e : Errand) (he : e.peer ≠ a.peer) : e ∈ w.requests.map (·.toErrand) ++
        (w.answers.eraseIdx j).map (·.toErrand) ↔ e ∈ w.errands :=
      ⟨hless e, fun hmem => hmore e hmem fun heq => he (heq ▸ rfl)⟩
    have hanswers (b : Answer) (hb : b ∈ w.answers.eraseIdx j) : b ∈ w.answers :=
      List.mem_of_mem_eraseIdx hb
    cases hp : w.peers[a.peer]? with
    | none =>
      -- nobody waits for the answer
      have hlate : isLate a w = false := by
        rw [isLate, hp]
        rfl
      simp only [step, stray, ha, hp, hlate, astray_of_not_late, ite_self]
      refine ⟨h.keeps, h.numbers, fun e he => h.shown e (hless e he), fun {i q} hq => ?_⟩
      obtain ⟨ns, sub, hs⟩ := h.sees hq
      have hi : i ≠ a.peer := by
        rintro rfl
        simp [hp] at hq
      exact ⟨ns, sub, hs.frame (fun _ => rfl) rfl (fun e he => hother e (he ▸ hi))
        (fun b hb _ _ _ => hanswers b hb) fun _ => rfl⟩
    | some p =>
      obtain ⟨ns, sub, hs⟩ := h.sees hp
      -- whether it is late is for the client alone to say
      have hlate : isLate a w = (p.view.hasHeir a.move && !awaits a.card p w.server) := by
        rw [isLate, hp]
        rfl
      simp only [step, stray, ha, hp]
      refine h.turn hp rfl rfl h.keeps (fun _ => rfl) (fun _ _ => rfl) hother hanswers
        (fun k hk c => if_neg (Ne.symm hk)) (fun e he => h.shown e (hless e he)) ⟨ns, sub, ?_⟩
      refine hs.receive hmem (mem_errands_of_answer hmem) rfl
        (h.shown _ (mem_errands_of_answer hmem)) hless (fun e he _ hne => hmore e he ?_) hanswers
        (fun c => ?_)
      · rintro rfl
        exact hne rfl
      · rw [if_pos rfl, hlate]

/-- Whatever happens next keeps the invariant. -/
theorem step_inv (h : Inv account board w astray) (a : Act) :
    Inv account board (step account board w a) fun i c =>
      stray account board i c w (astray i c) a := by
  cases a with
  | begin i now card target d => exact inv_begin h i now card target d
  | serve j now => exact inv_serve h j now
  | loseRequest j e => exact inv_loseRequest h j e
  | loseAnswer j e => exact inv_loseAnswer h j e
  | receive j => exact inv_receive h j
  | hear i => exact inv_hear h i

end Fleet

end Kanban
