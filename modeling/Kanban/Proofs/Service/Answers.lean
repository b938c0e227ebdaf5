import Kanban.Proofs.Directive
import Kanban.Proofs.Server.Reading
import Kanban.Proofs.Service.Calls

/-!
# Kanban.Proofs.Service.Answers — which moves are answered

A service that keeps its boards in memory answers a move with the card as it was stored or with a
refusal. Parameters that cannot be read are refused as invalid, and a refusal leaves cards, stages and
subscribers alone. Two numbers escape this: an exact position beyond all floats is not refused, and a
card id that is too long to be written fails when it is written.

* `Answers` — what is promised of a move.
* `move_cases` — what a move comes to.
* `answers_iff` — the promise is kept but for these two numbers.
-/

namespace Kanban

open Operation

/-! ## Requests -/

namespace MoveRequest

/-- A request with text where text belongs, and an object for its parameters if it has any. -/
structure Shaped (q : MoveRequest) : Prop where
  board : q.board = .null ∨ ∃ b : String, q.board = b
  stage : ∃ k : String, q.stage = k
  params : q.params = .null ∨ ∃ es, q.params = .object es

/-- The exact position is a whole number beyond all floats. -/
def Outsized (q : MoveRequest) : Prop :=
  ∃ es n, q.params = .object es ∧ Directive.exactOf es = .whole n ∧ 2 ^ 1024 - 2 ^ 970 ≤ n.natAbs

variable {q : MoveRequest} {f : Fault}

theorem Shaped.fault (hq : q.Shaped) (h : Directive.ofParams q.params = .error f) :
    f = .wrongKind ∨ f = .malformed ∨ f = .tooLarge := by
  rcases hq.params with hp | ⟨es, hp⟩
  · rw [hp] at h
    cases h
  · rw [hp] at h
    exact Directive.fault_of_ofParams h

theorem Shaped.outsized_iff (hq : q.Shaped) :
    q.Outsized ↔ Directive.ofParams q.params = .error .tooLarge := by
  rcases hq.params with hp | ⟨es, hp⟩
  · -- parameters that are null are read, and have no number in them
    constructor
    · rintro ⟨es, n, hes, -⟩
      rw [hp] at hes
      cases hes
    · intro h
      rw [hp] at h
      cases h
  · rw [hp, Directive.ofParams_eq_tooLarge_iff]
    constructor
    · rintro ⟨es', n, hes, h⟩
      obtain rfl := Value.object.inj (hp.symm.trans hes)
      exact ⟨n, h⟩
    · rintro ⟨n, h⟩
      exact ⟨es, n, hp, h⟩

end MoveRequest

/-! ## Transitions that are refused -/

/-- A refused transition of a server that keeps its boards in memory leaves everything alone but the
source of positions. -/
theorem Transition.run_refused {now : Float} {announce : Bool} {account card : String} {target : Key}
    {d : Directive} {board : Option Key} {s : Server} {r : Refusal} (hs : s.storage.folder = none)
    (h : (run now announce account card target d board s).1 = .error r) :
    ∃ a, (run now announce account card target d board s).2 = { s with allocator := a } := by
  obtain ⟨a, ha⟩ := Server.plan_frame now account card target d board s
  refine ⟨a, ?_⟩
  unfold run at h ⊢
  cases hp : plan now account card target d board s with
  | mk x t =>
    -- a plan changes the allocator alone, and a refused commit nothing
    obtain rfl : t = { s with allocator := a } := (congrArg Prod.snd hp).symm.trans ha
    rw [hp] at h
    cases x with
    | error e => rfl
    | ok p =>
      dsimp only at h ⊢
      rcases Server.commit_cases (s := { s with allocator := a }) hs announce target (.ok ()) p with
        ⟨e, hc⟩ | ⟨c, t, -, -, -, hc⟩
      · rw [hc]
      · rw [hc] at h
        cases h

namespace Service

variable {v : Service} {now : Float} {q : MoveRequest} {s t : Server} {r : Refusal} {d : Directive}

/-! ## The checks before a move -/

/-- The checks fail for the size of the exact position, and for nothing else. -/
theorem checkMove_fails_iff (hq : q.Shaped) :
    (∃ f, v.checkMove q = .error (.error f)) ↔ v.authorize q.account (v.boardOf q.board) = true ∧
      q.card.given = true ∧ q.stage.given = true ∧ q.Outsized := by
  rw [hq.outsized_iff]
  unfold checkMove
  cases v.authorize q.account (v.boardOf q.board) <;> cases q.card.given <;> cases q.stage.given
    <;> cases hp : Directive.ofParams q.params with
    | ok d' => simp
    | error f => rcases hq.fault hp with rfl | rfl | rfl <;> simp

/-- What a refusal by the checks says of parameters that cannot be read. -/
theorem code_of_checkMove (hp : ∀ d, Directive.ofParams q.params ≠ .ok d)
    (h : v.checkMove q = .error (.ok r)) :
    r.code = if v.authorize q.account (v.boardOf q.board) then .validation else .forbidden := by
  unfold checkMove at h
  split
  · rename_i hauth
    rw [if_pos hauth] at h
    split at h
    · split at h
      · rename_i d hd
        exact absurd hd (hp d)
      · cases h
        rfl
      · cases h
        rfl
      · cases h
    · cases h
      rfl
  · rename_i hauth
    rw [if_neg hauth] at h
    cases h
    rfl

/-! ## What a move comes to -/

/-- No record has changed and nothing was published. -/
structure Quiet (s t : Server) : Prop where
  records : ∀ a, t.records a = s.records a
  channel : t.channel = s.channel

/-- A move is refused and changes nothing, it stores a card after all checks, or it fails for the size
of a number. -/
theorem move_cases (hs : s.storage.folder = none) (hq : q.Shaped) (v : Service) (now : Float) :
    (∃ r t, v.move now q s = (.ok (.error r), t) ∧ Quiet s t ∧
        ((∀ d, Directive.ofParams q.params ≠ .ok d) → r.code =
          if v.authorize q.account (v.boardOf q.board) then .validation else .forbidden)) ∨
      (∃ c t d, v.move now q s = (.ok (.ok c), t) ∧ v.checkMove q = .ok d) ∨
      ∃ f t, v.move now q s = (.error f, t) ∧ v.authorize q.account (v.boardOf q.board) = true ∧
        q.card.given = true ∧ q.stage.given = true ∧
        (q.Outsized ∨ (∃ d, Directive.ofParams q.params = .ok d) ∧ q.card.overlong = true) := by
  rw [move_apply]
  cases hc : v.checkMove q with
  | error x =>
    cases x with
    -- the parameters hold a number that is too large
    | error f =>
      obtain ⟨hauth, hcard, hstage, hout⟩ := (checkMove_fails_iff hq).1 ⟨f, hc⟩
      exact .inr (.inr ⟨f, s, rfl, hauth, hcard, hstage, .inl hout⟩)
    | ok r => exact .inl ⟨r, s, rfl, ⟨fun _ => rfl, rfl⟩, fun hp => code_of_checkMove hp hc⟩
  | ok d =>
    obtain ⟨hauth, hcard, hstage, hd⟩ := checkMove_eq_ok_iff.1 hc
    obtain ⟨t, huse, hfolder, hrecords, hchannel⟩ := Server.use_memory hs q.account
    simp only [huse]
    cases htext : q.card.toText with
    -- the card id is a number of too many digits
    | error f =>
      have hlong := (Value.toText_eq_error_iff.1 htext).1
      exact .inr (.inr ⟨_, t, rfl, hauth, hcard, hstage, .inr ⟨⟨d, hd⟩, hlong⟩⟩)
    | ok card =>
      dsimp only
      cases hrun : Transition.run now true q.account card q.stage d (some (v.boardOf q.board)) t with
      | mk x u =>
        cases x with
        | ok c => exact .inr (.inl ⟨c, u, d, rfl, rfl⟩)
        | error r =>
          have hrefused := Transition.run_refused hfolder (congrArg Prod.fst hrun)
          obtain ⟨a, rfl⟩ : ∃ a, u = { t with allocator := a } := by rwa [hrun] at hrefused
          exact .inl ⟨r, _, rfl, ⟨hrecords, hchannel⟩, fun hp => absurd hd (hp d)⟩

/-! ## What is promised of a move -/

/-- A move is answered. Parameters that cannot be read are refused as invalid, unless the board may not
be used at all. A refusal leaves cards, stages and subscribers alone. -/
structure Answers (v : Service) (now : Float) (q : MoveRequest) (s : Server) : Prop where
  answered : ∃ x, (v.move now q s).1 = .ok x
  unreadable : (∀ d, Directive.ofParams q.params ≠ .ok d) →
    ∃ r, (v.move now q s).1 = .ok (.error r) ∧
      r.code = if v.authorize q.account (v.boardOf q.board) then .validation else .forbidden
  refused : ∀ r, (v.move now q s).1 = .ok (.error r) → Quiet s (v.move now q s).2

/-- A move that may be made keeps the promise unless a number in it is too large. -/
theorem answers_iff (hs : s.storage.folder = none) (hq : q.Shaped) (v : Service) (now : Float) :
    v.Answers now q s ↔ ¬ (v.authorize q.account (v.boardOf q.board) = true ∧ q.card.given = true ∧
      q.stage.given = true ∧
      (q.Outsized ∨ (∃ d, Directive.ofParams q.params = .ok d) ∧ q.card.overlong = true)) := by
  constructor
  · rintro ⟨⟨x, hx⟩, -, -⟩ ⟨hauth, hcard, hstage, hbad⟩
    rw [move_apply] at hx
    rcases hbad with hout | ⟨⟨d, hd⟩, hlong⟩
    · -- the check fails before the account is used
      obtain ⟨f, hf⟩ := (checkMove_fails_iff hq).2 ⟨hauth, hcard, hstage, hout⟩
      rw [hf] at hx
      cases hx
    · -- the check passes, and the card id fails after it
      obtain ⟨t, huse, -⟩ := Server.use_memory hs q.account
      rw [checkMove_eq_ok_iff.2 ⟨hauth, hcard, hstage, hd⟩, huse,
        Value.toText_eq_error_iff.2 ⟨hlong, rfl⟩] at hx
      cases hx
  · intro hsmall
    rcases move_cases hs hq v now with ⟨r, t, hmove, hquiet, hcode⟩ | ⟨c, t, d, hmove, hd⟩ |
      ⟨f, t, -, hbad⟩
    · refine ⟨⟨_, congrArg Prod.fst hmove⟩, fun hp => ⟨r, congrArg Prod.fst hmove, hcode hp⟩, ?_⟩
      intro _ _
      rwa [hmove]
    · refine ⟨⟨_, congrArg Prod.fst hmove⟩, fun hp => ?_, fun r hr => ?_⟩
      · exact absurd (checkMove_eq_ok_iff.1 hd).2.2.2 (hp d)
      · rw [hmove] at hr
        cases hr
    · exact absurd hbad hsmall

/-- A move to a position that is a list is answered. -/
def misplaced : MoveRequest where
  account := "acme"
  board := "sales"
  card := "1"
  stage := "won"
  params := .object [("absolute", .list [])]

theorem answers_misplaced :
    ({} : Server).storage.folder = none ∧ misplaced.Shaped ∧ ({} : Service).Answers 0.0 misplaced {} := by
  have hq : misplaced.Shaped := ⟨.inr ⟨"sales", rfl⟩, ⟨"won", rfl⟩, .inr ⟨_, rfl⟩⟩
  refine ⟨rfl, hq, (answers_iff rfl hq _ _).2 ?_⟩
  rintro ⟨-, -, -, ⟨es, n, hes, hn, -⟩ | ⟨-, hlong⟩⟩
  · obtain rfl := Value.object.inj hes
    cases hn
  · cases hlong

/-- A move to a position beyond all floats. -/
def farOff : MoveRequest where
  account := "acme"
  board := "sales"
  card := "1"
  stage := "won"
  params := .object [("absolute", .whole (10 ^ 400))]

theorem unanswered_farOff : ¬ ({} : Service).Answers 0.0 farOff {} := by
  rintro ⟨⟨x, hx⟩, -, -⟩
  have hq : farOff.Shaped := ⟨.inr ⟨"sales", rfl⟩, ⟨"won", rfl⟩, .inr ⟨_, rfl⟩⟩
  have hfar : 2 ^ 1024 - 2 ^ 970 ≤ (10 ^ 400 : Int).natAbs := by
    rw [Int.natAbs_pow]
    decide +kernel
  obtain ⟨f, hf⟩ : ∃ f, ({} : Service).checkMove farOff = .error (.error f) :=
    (checkMove_fails_iff hq).2 ⟨rfl, rfl, rfl, _, _, rfl, rfl, hfar⟩
  rw [move_apply, hf] at hx
  cases hx

end Service

end Kanban
