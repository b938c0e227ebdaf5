import Kanban.Proofs.Directive
import Kanban.Proofs.Service.Calls

/-!
# Kanban.Proofs.Service.Ids — ids that are numbers

A request may name a card by a whole number, as the card to move or as a neighbour. The number stands
for its numeral: the request comes to the same with the one as with the other. Two kinds of numbers are
the exception. Zero does not count as given, and its numeral does; a number that is too long cannot be
written.

* `Place`, `at?`, `respell` — where a request names a card.
* `Alike` — the same answer, and the same left behind.
* `alike_of_card`, `alike_of_params` — what requests come to that name the same cards.
* `interchange_iff` — the numbers that stand for their numerals.
-/

namespace Kanban

open Operation

/-! ## Places -/

/-- Where a request may name a card. -/
inductive Place where
  | card
  | after
  | before

namespace MoveRequest

/-- The parameter under a key. -/
def param? (key : String) (q : MoveRequest) : Option Value :=
  match q.params with
  | .object es => Entries.get? key es
  | _ => none

/-- The request with a parameter put under a key. -/
def putParam (key : String) (x : Value) (q : MoveRequest) : MoveRequest :=
  match q.params with
  | .object es => { q with params := .object (Entries.put key x es) }
  | _ => q

/-- What a request has at a place. -/
def at? (q : MoveRequest) : Place → Option Value
  | .card => some q.card
  | .after => q.param? "after_id"
  | .before => q.param? "before_id"

/-- The request with something else at a place. -/
def respell (x : Value) (q : MoveRequest) : Place → MoveRequest
  | .card => { q with card := x }
  | .after => q.putParam "after_id" x
  | .before => q.putParam "before_id" x

end MoveRequest

/-- A refusal without the parameters that it repeats. -/
def Refusal.sparse (r : Refusal) : Refusal :=
  { r with details := Entries.erase "position_params" r.details }

/-- The same answer, parameters that are repeated aside, and the same server left behind. -/
structure Alike (a b : Except Failure (Except Refusal Card) × Server) : Prop where
  answer : a.1.map (·.mapError Refusal.sparse) = b.1.map (·.mapError Refusal.sparse)
  server : a.2 = b.2

theorem Alike.refl (a : Except Failure (Except Refusal Card) × Server) : Alike a a := ⟨rfl, rfl⟩

theorem alike_refused {r r' : Refusal} (h : r.sparse = r'.sparse) (s : Server) :
    Alike (.ok (.error r), s) (.ok (.error r'), s) where
  answer := by simp only [Except.map, Except.mapError, h]
  server := rfl

/-! ## Numerals -/

/-- A numeral is not empty. -/
theorem toString_ne_empty (n : Int) : toString n ≠ "" := by
  intro h
  -- a numeral has a digit, or a sign in front of its digits
  cases n with
  | ofNat k =>
    have hs : toString (Int.ofNat k) = toString k := rfl
    have hlist := congrArg String.toList (hs.symm.trans h)
    rw [Decimal.Numeral.toList_toString] at hlist
    exact Nat.toDigits_ne_nil hlist
  | negSucc k =>
    have hs : toString (Int.negSucc k) = "-" ++ toString (k + 1) := rfl
    have hlist := congrArg String.toList (hs.symm.trans h)
    rw [String.toList_append] at hlist
    cases hlist

theorem given_numeral (n : Int) : (Value.text (toString n)).given = true := by
  simpa [Value.given] using toString_ne_empty n

theorem toText_whole {n : Int} (hn : (Value.whole n).overlong = false) :
    (Value.whole n).toText = (Value.text (toString n)).toText :=
  Value.toText_of_not_overlong hn

namespace Directive

variable {n : Int} {es : Entries String Value} {key other : String} {x : Value}

theorem getD_put_of_ne (h : other ≠ key) :
    (Entries.put key x es).getD other .null = es.getD other .null :=
  congrArg (·.getD .null) (Entries.get?_put_of_ne h x es)

theorem exactOf_put (ha : "absolute" ≠ key) (hp : "absolute_position" ≠ key) :
    exactOf (Entries.put key x es) = exactOf es := by
  rw [exactOf, exactOf, getD_put_of_ne ha, getD_put_of_ne hp]

theorem nameOf_put_of_ne (h : other ≠ key) : nameOf other (Entries.put key x es) = nameOf other es := by
  rw [nameOf, nameOf, getD_put_of_ne h]

theorem nameOf_of_given (h : Entries.get? key es = some x) (hx : x.given = true) :
    nameOf key es = x := by
  simp only [nameOf, Entries.getD, h, Option.getD_some, Value.given?, hx, if_true]

/-- A neighbour that is a number is read as its numeral. -/
theorem ofParams_put (hkey : key = "after_id" ∨ key = "before_id")
    (h : Entries.get? key es = some (.whole n)) (hzero : n ≠ 0)
    (hlong : (Value.whole n).overlong = false) :
    ofParams (.object (Entries.put key (.text (toString n)) es)) = ofParams (.object es) := by
  have hwhole : nameOf key es = .whole n := nameOf_of_given h (by simpa [Value.given] using hzero)
  have htext : nameOf key (Entries.put key (.text (toString n)) es) = .text (toString n) :=
    nameOf_of_given (Entries.get?_put_self _ _ _) (given_numeral n)
  -- the number and its numeral are both short and given, and name the same card
  have hshort : (Value.text (toString n)).overlong = false := rfl
  have hsame : textOf? (.whole n) = textOf? (.text (toString n)) := rfl
  rw [ofParams_object, ofParams_object, ofFields_eq, ofFields_eq]
  rcases hkey with rfl | rfl
  · have hother : "before_id" ≠ "after_id" := by decide
    rw [exactOf_put (by decide) (by decide), nameOf_put_of_ne hother, hwhole, htext, hlong, hshort,
      hsame]
  · have hother : "after_id" ≠ "before_id" := by decide
    rw [exactOf_put (by decide) (by decide), nameOf_put_of_ne hother, hwhole, htext, hlong, hshort,
      hsame]

end Directive

namespace Service

variable {v : Service} {now : Float} {q : MoveRequest} {s : Server} {n : Int} {key : String}

/-! ## Requests that name the same cards -/

/-- A card that is a number is moved as the card of its numeral is. -/
theorem alike_of_card (h : q.card = .whole n) (hzero : n ≠ 0) (hlong : (Value.whole n).overlong = false) :
    v.move now { q with card := .text (toString n) } s = v.move now q s := by
  have hgiven : q.card.given = (Value.text (toString n)).given := by
    rw [given_numeral, h]
    simpa [Value.given] using hzero
  have hcheck : v.checkMove { q with card := .text (toString n) } = v.checkMove q := by
    rw [checkMove, checkMove, hgiven]
  rw [move_apply, move_apply, hcheck, h, toText_whole hlong]

/-- The checks of requests whose parameters are read alike end alike. -/
theorem checkMove_params {x : Value} (h : Directive.ofParams x = Directive.ofParams q.params) :
    v.checkMove { q with params := x } = v.checkMove q ∨
      ∃ r r' : Refusal, v.checkMove { q with params := x } = .error (.ok r) ∧
        v.checkMove q = .error (.ok r') ∧ r.sparse = r'.sparse := by
  have hsparse (y : Value) : Entries.erase "position_params" [("position_params", y)] = [] := rfl
  -- only a refusal shows the parameters, and there alone the answers may differ
  unfold checkMove
  dsimp only
  rw [h]
  split
  · split
    · split
      · exact .inl rfl
      · exact .inr ⟨_, _, rfl, rfl, by simp only [Refusal.sparse, hsparse]⟩
      · exact .inr ⟨_, _, rfl, rfl, by simp only [Refusal.sparse, hsparse]⟩
      · exact .inl rfl
    · exact .inl rfl
  · exact .inl rfl

/-- Requests whose parameters are read alike come to the same. -/
theorem alike_of_params {x : Value} (h : Directive.ofParams x = Directive.ofParams q.params) :
    Alike (v.move now q s) (v.move now { q with params := x } s) := by
  rw [move_apply, move_apply]
  rcases checkMove_params (v := v) h with hsame | ⟨r, r', hr, hr', hsparse⟩
  · rw [hsame]
    exact .refl _
  · rw [hr, hr']
    exact alike_refused hsparse.symm s

/-- A number that is given and not too long stands for its numeral, wherever it names a card. -/
theorem alike_respell {place : Place} (h : q.at? place = some (.whole n)) (hzero : n ≠ 0)
    (hlong : (Value.whole n).overlong = false) :
    Alike (v.move now q s) (v.move now (q.respell (.text (toString n)) place) s) := by
  -- both names of neighbours are read in the same way
  have hparam {key : String} (hkey : key = "after_id" ∨ key = "before_id")
      (h : q.param? key = some (.whole n)) :
      Alike (v.move now q s) (v.move now (q.putParam key (.text (toString n))) s) := by
    cases hp : q.params with
    | object es =>
      simp only [MoveRequest.param?, hp] at h
      simp only [MoveRequest.putParam, hp]
      refine alike_of_params ?_
      rw [hp, Directive.ofParams_put hkey h hzero hlong]
    | _ =>
      rw [MoveRequest.param?, hp] at h
      cases h
  cases place with
  | card =>
    have hcard : q.card = .whole n := Option.some.inj h
    rw [MoveRequest.respell, alike_of_card hcard hzero hlong]
    exact .refl _
  | after => exact hparam (.inl rfl) h
  | before => exact hparam (.inr rfl) h

/-! ## Numbers that do not stand for their numerals -/

/-- A request that names a card at a place. -/
def naming (x : Value) : Place → MoveRequest
  | .card => ⟨"acme", "sales", x, "won", .null⟩
  | .after => ⟨"acme", "sales", "1", "won", .object [("after_id", x)]⟩
  | .before => ⟨"acme", "sales", "1", "won", .object [("before_id", x)]⟩

theorem at?_naming (x : Value) (place : Place) : (naming x place).at? place = some x := by
  cases place <;> rfl

theorem respell_naming (x y : Value) (place : Place) :
    (naming x place).respell y place = naming y place := by
  cases place <;> rfl

/-- A board with a card whose id is zero in the stage that others are moved to. -/
def numbered : Server where
  storage := {
    repository := {
      accounts := [("acme", {
        cards := [("0", ⟨"0", "sales", "won", 1.0, 0, []⟩), ("1", ⟨"1", "sales", "new", 1.0, 0, []⟩)]
        stages := [("1", { id := "1", board := "sales", key := "new", name := "New" }),
          ("2", { id := "2", board := "sales", key := "won", name := "Won", position := 1 })] })]
      loaded := ["acme"]
      nextStage := 3 } }

/-- Zero is passed over where its numeral names a card. -/
theorem not_alike_zero (place : Place) :
    ¬ Alike (({} : Service).move 0.0 (naming (.whole 0) place) numbered)
      (({} : Service).move 0.0 (naming (.text (toString (0 : Int))) place) numbered) := by
  rintro ⟨h, -⟩
  revert h
  cases place <;> decide +kernel

/-- Where no card is known, a request that passes its checks is told so, if its card can be written. -/
theorem move_blank {q : MoveRequest} {d : Directive} (hd : ({} : Service).checkMove q = .ok d) :
    (({} : Service).move 0.0 q {}).1 = match q.card.toText with
      | .error f => .error (.unreadable f)
      | .ok card => .ok (.error (.noCard card)) := by
  rw [move_apply, hd]
  dsimp only
  cases q.card.toText <;> rfl

/-- Parameters that name one card are read if its id can be written. -/
theorem ofParams_naming {x : Value} (hx : x.given = true) {place : Place} (hplace : place ≠ .card) :
    ∃ d, Directive.ofParams (naming x place).params =
      if x.overlong then .error .malformed else .ok d := by
  have hname (key : String) : Directive.nameOf key [(key, x)] = x :=
    Directive.nameOf_of_given (by simp [Entries.get?]) hx
  cases place with
  | card => exact absurd rfl hplace
  | after =>
    refine ⟨⟨none, Directive.textOf? x, none⟩, ?_⟩
    simp only [naming, Directive.ofParams_object, Directive.ofFields_eq, hname]
    cases x.overlong <;> rfl
  | before =>
    refine ⟨⟨none, none, Directive.textOf? x⟩, ?_⟩
    simp only [naming, Directive.ofParams_object, Directive.ofFields_eq, hname]
    cases x.overlong <;> rfl

/-- A numeral is text, and is looked up. -/
theorem move_naming_numeral (n : Int) (place : Place) :
    ∃ card, (({} : Service).move 0.0 (naming (.text (toString n)) place) {}).1 =
      .ok (.error (.noCard card)) := by
  have hgiven := given_numeral n
  by_cases hplace : place = .card
  · subst hplace
    exact ⟨toString n, move_blank (checkMove_eq_ok_iff.2 ⟨rfl, hgiven, rfl, rfl⟩)⟩
  · obtain ⟨d, hd⟩ := ofParams_naming hgiven hplace
    refine ⟨"1", ?_⟩
    cases place with
    | card => exact absurd rfl hplace
    | after => exact move_blank (checkMove_eq_ok_iff.2 ⟨rfl, rfl, rfl, hd⟩)
    | before => exact move_blank (checkMove_eq_ok_iff.2 ⟨rfl, rfl, rfl, hd⟩)

/-- A number that is too long cannot be written. -/
theorem move_naming_overlong (hlong : (Value.whole n).overlong = true) (place : Place) :
    (∃ f, (({} : Service).move 0.0 (naming (.whole n) place) {}).1 = .error f) ∨
      ∃ r, (({} : Service).move 0.0 (naming (.whole n) place) {}).1 = .ok (.error r) ∧
        r.code = .validation := by
  -- zero is not overlong
  have hgiven : (Value.whole n).given = true := by
    by_contra hzero
    obtain rfl : n = 0 := by simpa [Value.given] using hzero
    cases hlong
  by_cases hplace : place = .card
  · left
    subst hplace
    refine ⟨.unreadable .malformed, ?_⟩
    rw [move_blank (checkMove_eq_ok_iff.2 ⟨rfl, hgiven, rfl, rfl⟩)]
    simp only [naming, Value.toText_eq_error_iff.2 ⟨hlong, rfl⟩]
  · right
    obtain ⟨d, hd⟩ := ofParams_naming hgiven hplace
    rw [hlong, if_pos rfl] at hd
    have hcheck : ({} : Service).checkMove (naming (.whole n) place) = .error (.ok {
        error := "Invalid position parameters", code := .validation
        details := [("position_params", (naming (.whole n) place).params)] }) := by
      cases place with
      | card => exact absurd rfl hplace
      | after =>
        unfold checkMove
        rw [hd]
        rfl
      | before =>
        unfold checkMove
        rw [hd]
        rfl
    rw [move_apply, hcheck]
    exact ⟨_, rfl, rfl⟩

/-- A number that is too long does not come to the same as its numeral. -/
theorem not_alike_overlong (hlong : (Value.whole n).overlong = true) (place : Place) :
    ¬ Alike (({} : Service).move 0.0 (naming (.whole n) place) {})
      (({} : Service).move 0.0 (naming (.text (toString n)) place) {}) := by
  rintro ⟨h, -⟩
  obtain ⟨card, hcard⟩ := move_naming_numeral n place
  rcases move_naming_overlong hlong place with ⟨f, hf⟩ | ⟨r, hr, hcode⟩
  · -- as a card: the number fails the call, its numeral is refused
    rw [hf, hcard] at h
    cases h
  · rw [hr, hcard] at h
    -- as a neighbour: the refusals have different codes
    have hsparse : r.sparse = (Refusal.noCard card).sparse := Except.error.inj (Except.ok.inj h)
    have hcodes : r.code = .notFound := congrArg Refusal.code hsparse
    rw [hcode] at hcodes
    cases hcodes

/-- A number stands for its numeral in every request, whatever the service and its state, if it is not
zero and not too long to be written, and only then. -/
theorem interchange_iff (place : Place) (n : Int) :
    (∀ (v : Service) (now : Float) (q : MoveRequest) (s : Server), q.at? place = some (.whole n) →
      Alike (v.move now q s) (v.move now (q.respell (.text (toString n)) place) s)) ↔
    n ≠ 0 ∧ n.natAbs < 10 ^ Decimal.Numeral.maxDigits := by
  have hshort : n.natAbs < 10 ^ Decimal.Numeral.maxDigits ↔ (Value.whole n).overlong = false := by
    rw [← Nat.not_le, ← Value.overlong_whole_iff, Bool.not_eq_true]
  rw [hshort]
  constructor
  · intro h
    constructor
    · -- zero counts as not given, while its numeral is
      rintro rfl
      have hzero := h {} 0.0 (naming (.whole 0) place) numbered (at?_naming _ place)
      rw [respell_naming] at hzero
      exact not_alike_zero place hzero
    · -- a number of too many digits has no text
      by_contra hlong
      have hfar := h {} 0.0 (naming (.whole n) place) {} (at?_naming _ place)
      rw [respell_naming] at hfar
      exact not_alike_overlong (by simpa using hlong) place hfar
  · rintro ⟨hzero, hlong⟩ v now q s hq
    exact alike_respell hq hzero hlong

/-- A card whose id is given as zero is not moved, and as its numeral it is. -/
theorem zero_passed_over :
    (naming (.whole 0) .card).at? .card = some (.whole 0) ∧
    ¬ Alike (({} : Service).move 0.0 (naming (.whole 0) .card) numbered)
      (({} : Service).move 0.0
        ((naming (.whole 0) .card).respell (.text (toString (0 : Int))) .card) numbered) :=
  ⟨rfl, not_alike_zero .card⟩

end Service

end Kanban
