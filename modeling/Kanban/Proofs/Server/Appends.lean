import Kanban.Proofs.Decimal.Sums
import Kanban.Proofs.Projection.Provisional
import Kanban.Proofs.Server.Atomic
import Kanban.Proofs.Server.Positions

/-!
# Kanban.Proofs.Server.Appends — where appended cards land

A card that is moved to the end of a stage is put at the time, or just after the last position that
was given for an end, when the clock has not got beyond that. So it lands after every card that was
appended before, whatever the clock did. The cards of the stage are not looked at, and those that came
to their places in another way, with a position of their own, one made of the id or one next to another
card, may be ahead of the time.

* `landing?`, `plan_spec` — what a plan comes to.
* `appended` — the positions that were given for an end.
* `last_le_run`, `last_le_runAll` — the memory of the allocator never falls and has all of them.
* `lands_last_iff` — an appended card lands last iff no other card is ahead in another way.
-/

namespace Kanban

open Decimal (le_self le_of_not_le le_of_le_of_le le_add isPositive_one)

/-! ## The memory of the allocator -/

namespace Allocator

variable {a : Allocator} {now : Float}

/-- The end is neither before the last end nor before the time. -/
theorem le_append (h : a.Defined) (hnow : now.isNaN = false) :
    a.last ≤ (a.append now).1 ∧ now * 1000.0 ≤ (a.append now).1 := by
  have hms : (now * 1000.0).isNaN = false := Decimal.isNaN_mul hnow Decimal.isSolid_thousand
  unfold append
  dsimp only
  split
  · rename_i hle
    have hnext := le_add h.last isPositive_one
    exact ⟨hnext, le_of_le_of_le hle hnext⟩
  · rename_i hle
    exact ⟨le_of_not_le hms h.last hle, le_self hms⟩

end Allocator

namespace Transition

variable {now : Float} {announce : Bool} {account card : String} {target : Key} {d : Directive}
  {board : Option Key} {s : Server}

/-- What the directive of a transition comes to among the other cards of its target stage, if there
are such a card and such a stage. -/
def landing? (account card : String) (target : Key) (d : Directive) (board : Option Key)
    (s : Server) : Option (Placement Float) :=
  let r := s.records account
  (r.card? card).bind fun c =>
    let b := board.getD c.board
    if c.board ≠ b then none
    else (r.activeStage? b target).map fun stage =>
      d.placement ((r.cardsIn b stage.key).filter fun c => c.id ≠ card)

/-- On a board that is named, the target stage is the one with that key. -/
theorem eq_of_landing {b : Key} {q : Placement Float}
    (h : landing? account card target d (some b) s = some q) :
    q = d.placement (((s.records account).cardsIn b target).filter fun c => c.id ≠ card) := by
  unfold landing? at h
  dsimp only at h
  obtain ⟨c, -, hc⟩ := Option.bind_eq_some_iff.1 h
  dsimp only [Option.getD_some] at hc
  split at hc
  · cases hc
  · obtain ⟨stage, hstage, rfl⟩ := Option.map_eq_some_iff.1 hc
    have hkey : stage.key = target := by simpa using List.find?_some hstage
    rw [hkey]

/-- A plan asks the allocator for what the directive comes to, and changes nothing else. -/
theorem plan_spec (now : Float) (account card : String) (target : Key) (d : Directive)
    (board : Option Key) (s : Server) :
    match landing? account card target d board s with
    | none => ∃ e, plan now account card target d board s = (.error e, s)
    | some q => ∃ p, plan now account card target d board s =
        (.ok p, { s with allocator := (s.allocator.place now q).2 }) ∧
      p.position = (s.allocator.place now q).1 := by
  unfold landing? plan
  dsimp only
  cases (s.records account).card? card with
  | none => exact ⟨_, rfl⟩
  | some c =>
    dsimp only [Option.bind_some]
    -- each way out of the plan is one of the landing, in the same order
    by_cases hb : c.board ≠ board.getD c.board
    · rw [if_pos hb, if_pos hb]
      exact ⟨_, rfl⟩
    · rw [if_neg hb, if_neg hb]
      cases (s.records account).activeStage? (board.getD c.board) target with
      | none => exact ⟨_, rfl⟩
      | some stage => exact ⟨_, rfl, rfl⟩

end Transition

namespace Deactivation

open Operation

/-- A deactivation asks for no position. -/
theorem allocator_run (announce : Bool) (account id : String) (s : Server) :
    (run announce account id s).2.allocator = s.allocator := by
  have hdiscard {α : Type} (op : Storage.Op α) (t : Server) :
      ((discard (Server.onStorage op)) t).2.allocator = t.allocator := by
    rw [discard_apply]
    unfold Server.onStorage
    cases op t.storage with
    | mk r u => cases r <;> rfl
  unfold run
  rw [bind_apply, get_apply]
  dsimp only
  cases (s.records account).stage? id with
  | none => rfl
  | some stage =>
    dsimp only
    rw [if_apply]
    split
    · rfl
    · cases (s.records account).defaultStage? stage.board [stage.id] with
      | none => rfl
      | some fallback =>
        -- what is stored, and what is published, leaves the allocator alone
        refine keeps_bind (P := fun t : Server => t.allocator = s.allocator) (hdiscard _ s)
          fun _ t ht => ?_
        refine keeps_bind (P := fun t : Server => t.allocator = s.allocator) ht fun _ u hu => ?_
        cases announce <;> exact hu

end Deactivation

namespace Act

variable {a : Act} {s : Server}

/-- An act whose clock reading is a number. -/
def Timely : Act → Prop
  | .plan now _ _ _ _ _ => now.isNaN = false
  | _ => True

/-- The position that an act gives for the end of a stage. -/
def appended? : Act → Server → Option Float
  | .plan now account card target d board, s =>
    if Transition.landing? account card target d board s = some .last then
      some (s.allocator.append now).1
    else none
  | _, _ => none

/-- The positions that the acts of a run give for the ends of stages. -/
def appended : List Act → Server → List Float
  | [], _ => []
  | a :: rest, s => (a.appended? s).toList ++ appended rest (a.run s)

/-- The allocator after an act: it gave the end of a stage, or nothing that it remembers. -/
theorem allocator_run (a : Act) (s : Server) :
    (a.appended? s = none ∧ (a.run s).allocator = s.allocator) ∨
      ∃ now account card target d board, a = .plan now account card target d board ∧
        a.appended? s = some (s.allocator.append now).1 ∧
        (a.run s).allocator = (s.allocator.append now).2 := by
  cases a with
  | use account => exact .inl ⟨rfl, rfl⟩
  | work account w => exact .inl ⟨rfl, rfl⟩
  | commit announce target slip p => exact .inl ⟨rfl, Transition.allocator_commit slip⟩
  | deactivate announce account id =>
    exact .inl ⟨rfl, Deactivation.allocator_run announce account id s⟩
  | listen f => exact .inl ⟨rfl, rfl⟩
  | disturb f => exact .inl ⟨rfl, rfl⟩
  | plan now account card target d board =>
    have hspec := Transition.plan_spec now account card target d board s
    unfold appended? run
    dsimp only
    cases hq : Transition.landing? account card target d board s with
    | none =>
      rw [hq] at hspec
      obtain ⟨e, he⟩ := hspec
      rw [he]
      exact .inl ⟨rfl, rfl⟩
    | some q =>
      rw [hq] at hspec
      obtain ⟨p, hp, -⟩ := hspec
      rw [hp]
      -- only the end of a stage is reckoned by the clock and moves the allocator on
      by_cases hlast : q = .last
      · subst hlast
        exact .inr ⟨now, account, card, target, d, board, rfl, if_pos rfl, rfl⟩
      · refine .inl ⟨if_neg fun h => hlast (Option.some.inj h), ?_⟩
        exact Allocator.last_place hlast s.allocator

/-- The memory of the allocator never falls, and has what was given for an end. -/
theorem last_le_run (ha : a.Timely) (h : s.allocator.Defined) :
    (a.run s).allocator.Defined ∧ s.allocator.last ≤ (a.run s).allocator.last ∧
      ∀ x ∈ a.appended? s, x ≤ (a.run s).allocator.last := by
  rcases a.allocator_run s with ⟨hnone, hrun⟩ | ⟨now, account, card, target, d, board, rfl, hx, hrun⟩
  · rw [hrun, hnone]
    exact ⟨h, le_self h.last, nofun⟩
  · obtain ⟨hdef, hnext⟩ := Allocator.defined_append h ha
    rw [hrun, hx]
    refine ⟨hnext, (Allocator.le_append h ha).1, fun x hmem => ?_⟩
    obtain rfl := Option.some.inj hmem
    exact le_self hdef

/-- At the end of a run the allocator has all that was given for an end. -/
theorem last_le_runAll {acts : List Act} (ha : ∀ a ∈ acts, a.Timely) (h : s.allocator.Defined) :
    (runAll acts s).allocator.Defined ∧ s.allocator.last ≤ (runAll acts s).allocator.last ∧
      ∀ x ∈ appended acts s, x ≤ (runAll acts s).allocator.last := by
  induction acts generalizing s with
  | nil => exact ⟨h, le_self h.last, nofun⟩
  | cons a acts ih =>
    obtain ⟨hdef, hle, hx⟩ := last_le_run (ha a List.mem_cons_self) h
    obtain ⟨hdef', hle', hx'⟩ := ih (fun b hb => ha b (List.mem_cons_of_mem _ hb)) hdef
    refine ⟨hdef', le_of_le_of_le hle hle', fun x hmem => ?_⟩
    rcases List.mem_append.1 hmem with hmem | hmem
    · exact le_of_le_of_le (hx x (Option.mem_toList.1 hmem)) hle'
    · exact hx' x hmem

end Act

/-! ## The end of a stage -/

namespace Transition

variable {now : Float} {announce : Bool} {account card : String} {target : Key} {d : Directive}
  {board : Option Key} {acts between : List Act} {c : Card} {s t : Server}

/-- A card that was moved is stored at what the allocator gave for its place. -/
theorem position_runWith {q : Placement Float}
    (hland : landing? account card target d board s = some q)
    (hrun : runWith now announce account card target d board between (.ok ()) s = (.ok c, t)) :
    c.position = (s.allocator.place now q).1 := by
  have hspec := plan_spec now account card target d board s
  rw [hland] at hspec
  obtain ⟨p, hp, hx⟩ := hspec
  unfold runWith at hrun
  rw [hp] at hrun
  dsimp only at hrun
  -- whatever happened in between, the position is that of the plan
  rcases commit_outcome announce target (.ok ()) p
    (Act.runAll between { s with allocator := (s.allocator.place now q).2 }) with
    ⟨e, u, hc, -⟩ | ⟨old, u, -, -, -, -, hc⟩
  · rw [hc] at hrun
    cases congrArg Prod.fst hrun
  · rw [hc] at hrun
    obtain rfl := Except.ok.inj (congrArg Prod.fst hrun)
    exact hx

/-- The other cards of the stage in which a card is. -/
def others (account : String) (c : Card) (s : Server) : List Card :=
  ((s.records account).cardsIn c.board c.stage).filter fun e => e.id ≠ c.id

/-- Whatever happens on a server and whatever its clock reads: a card that is appended to a stage
lands after all that was appended before and not before the time, and it lands last iff no other card
is ahead of that which came to its place in another way. -/
theorem lands_last_iff {refusals : Option (List Bool)} (hacts : ∀ a ∈ acts, a.Timely)
    (hnow : now.isNaN = false)
    (hland : landing? account card target d board (Act.runAll acts (Server.blank refusals)) =
      some .last)
    (hrun : runWith now announce account card target d board between (.ok ())
      (Act.runAll acts (Server.blank refusals)) = (.ok c, t)) :
    (∀ x ∈ Act.appended acts (Server.blank refusals), x ≤ c.position) ∧ now * 1000.0 ≤ c.position ∧
      ((∀ e ∈ others account c t, e.position ≤ c.position) ↔
        ∀ e ∈ others account c t, e.position ∉ Act.appended acts (Server.blank refusals) →
          e.position ≤ ((Act.runAll acts (Server.blank refusals)).allocator.append now).1) := by
  obtain ⟨hdef, -, hlast⟩ := Act.last_le_runAll (s := Server.blank refusals) hacts
    Allocator.defined_new
  obtain ⟨hend, htime⟩ := Allocator.le_append hdef hnow
  rw [position_runWith hland hrun]
  -- every earlier end is below the last one, and that below the new one
  have happended : ∀ x ∈ Act.appended acts (Server.blank refusals),
      x ≤ ((Act.runAll acts (Server.blank refusals)).allocator.append now).1 :=
    fun x hx => le_of_le_of_le (hlast x hx) hend
  refine ⟨happended, htime, fun hall e he _ => hall e he, fun hall e he => ?_⟩
  -- a card whose position was dealt is below in any case; the others decide
  by_cases hx : e.position ∈ Act.appended acts (Server.blank refusals)
  · exact happended e.position hx
  · exact hall e he hx

/-- Of three cards the first is appended to another stage, and the second is put after it. -/
def dealt : List Act :=
  [.work "acme" (.seed "sales"), .work "acme" (.addCard ⟨"1", "sales", "new", 1.0, 0, []⟩),
    .work "acme" (.addCard ⟨"2", "sales", "new", 2.0, 0, []⟩),
    .work "acme" (.addCard ⟨"3", "sales", "new", 3.0, 0, []⟩),
    .plan 1700000000.0 "acme" "1" "qualified" {} none,
    .commit true "qualified" (.ok ()) ⟨"acme", "1", "sales", "qualified", 1700000000000.0⟩,
    .plan 1700000000.0 "acme" "2" "qualified" { after := some "1" } none,
    .commit true "qualified" (.ok ()) ⟨"acme", "2", "sales", "qualified", 1700000001000.0⟩]

/-- The third card is appended to the stage as well. -/
def landed (now : Float) : Except Refusal Card × Server :=
  runWith now true "acme" "3" "qualified" {} none [] (.ok ()) (Act.runAll dealt (Server.blank none))

/-- The third card where it landed. -/
def arrival (x : Float) : Card := ⟨"3", "sales", "qualified", x, 0, []⟩

theorem timely_dealt : ∀ a ∈ dealt, a.Timely := by
  have hnow : (1700000000.0 : Float).isNaN = false := by decide +kernel
  simp only [dealt, List.forall_mem_cons, Act.Timely, hnow, true_and]
  exact nofun

/-- Two seconds later it lands last. -/
theorem lands_last_later : (landed 1700000002.0).1 = .ok (arrival 1700000002000.0) ∧
    ∀ e ∈ others "acme" (arrival 1700000002000.0) (landed 1700000002.0).2,
      e.position ≤ (arrival 1700000002000.0).position := by
  have hfst : (landed 1700000002.0).1 = .ok (arrival 1700000002000.0) := by decide +kernel
  have hrun : landed 1700000002.0 = (.ok (arrival 1700000002000.0), (landed 1700000002.0).2) := by
    rw [← hfst]
  have hland : landing? "acme" "3" "qualified" {} none (Act.runAll dealt (Server.blank none)) =
      some .last := by decide +kernel
  have hbehind : ∀ e ∈ others "acme" (arrival 1700000002000.0) (landed 1700000002.0).2, e.position ≤
      ((Act.runAll dealt (Server.blank none)).allocator.append 1700000002.0).1 := by
    decide +kernel
  exact ⟨hfst, (lands_last_iff timely_dealt (by decide +kernel) hland hrun).2.2.2
    fun e he _ => hbehind e he⟩

/-- Half a second later the clock has not got beyond the gap between the other two, and it lands
between them. -/
theorem lands_between : landing? "acme" "3" "qualified" {} none
      (Act.runAll dealt (Server.blank none)) = some .last ∧
    (landed 1700000000.5).1 = .ok (arrival 1700000000500.0) ∧
    ∃ e ∈ others "acme" (arrival 1700000000500.0) (landed 1700000000.5).2,
      ¬ e.position ≤ (arrival 1700000000500.0).position := by
  decide +kernel

end Transition

end Kanban
