import Kanban.Proofs.Directive
import Kanban.Proofs.Http.Numerals

/-!
# Kanban.Proofs.Http.Parameters — position parameters, posted and given

Position parameters that are posted are checked first, and what is left of them is read by the service;
parameters that are given to the service are read as they are. The two agree on the neighbours. They
agree on the exact position unless it is null under its first spelling and given under the second, which
the check takes for null and the service does not, or is text with an underscore beside something other
than a digit, which the service does not take for a numeral.

* `check_object` — what is checked, field by field.
* `readExact_exactOf_iff` — when the exact position is read as it was checked.
* `read_alike_iff` — when posted and given parameters are read as the same directive.
-/

namespace Kanban.Http

open Decimal.Numeral Directive

variable {kind : Issue.Kind} {es : Entries String Value} {p : Position} {v : Value} {name : String}
  {a : Option Float}

/-! ## Fields one by one -/

theorem checkText_eq_ok {i : Option String} (h : checkText name v = .ok i) : v = .ofText? i := by
  unfold checkText at h
  split at h
  · cases h
    rfl
  · cases h
    rfl
  · cases h

/-- A blank that passes for a number is null. -/
theorem eq_null_of_checkNumber (h : checkNumber name v = .ok a) (hb : isBlank v = true) :
    v = .null := by
  cases v with
  | null => rfl
  | text s =>
    obtain rfl : s = "" := by simpa [isBlank] using hb
    cases h
  | _ => cases hb

/-- What is not text is checked by reading it. -/
theorem readExact_of_checkNumber (h : checkNumber name v = .ok a) (hv : ∀ s, v ≠ .text s) :
    readExact v = .ok a := by
  -- null is no number to both, a text is ruled out, and numbers are read alike
  cases hr : v.toReal with
  | error f =>
    cases v with
    | null =>
      cases h
      rfl
    | text s => exact absurd rfl (hv s)
    | _ =>
      simp only [checkNumber, hr] at h
      cases h
  | ok x =>
    cases v with
    | null => cases hr
    | text s => exact absurd rfl (hv s)
    | _ =>
      simp only [checkNumber, hr] at h
      cases h
      simp only [readExact, hr]
      rfl

/-- A number is read as it was checked, if the underscores of text stand between digits. -/
theorem readExact_iff (h : checkNumber name v = .ok a) :
    readExact v = .ok a ↔ ∀ s, v = .text s → (joinDigits false s.toList).isSome = true := by
  by_cases ht : ∃ s, v = .text s
  · obtain ⟨s, rfl⟩ := ht
    simp only [checkNumber] at h
    cases hx : numeral? s with
    | none =>
      rw [hx] at h
      cases h
    | some x =>
      rw [hx] at h
      cases h
      simp only [readExact, Value.toReal, realOf?_of_numeral? hx, Value.text.injEq, forall_eq']
      cases joinDigits false s.toList <;> simp [Functor.map, Except.map]
  · -- only a text can be read in two ways
    have hv : ∀ s, v ≠ .text s := fun s hs => ht ⟨s, hs⟩
    exact ⟨fun _ s hs => absurd hs (hv s), fun _ => readExact_of_checkNumber h hv⟩

/-- Only null names no position. -/
theorem eq_null_of_readExact (h : readExact v = .ok none) : v = .null := by
  cases v with
  | null => rfl
  | _ =>
    simp only [readExact] at h
    cases hx : Value.toReal _ with
    | error f =>
      rw [hx] at h
      cases h
    | ok x =>
      rw [hx] at h
      cases h

/-! ## What is checked -/

theorem Checked.both_eq_ok {α β : Type} {x : Checked α} {y : Checked β} {b : α} {c : β}
    (h : Checked.both x y = .ok (b, c)) : x = .ok b ∧ y = .ok c := by
  cases x <;> cases y <;> simp_all [Checked.both]

/-- What is checked, field by field. -/
theorem check_object (h : Position.check kind (.object es) = .ok p) :
    checkNumber "absolute" (absoluteOf es) = .ok p.absolute ∧
      checkText "after_id" (es.getD "after_id" .null) = .ok p.after ∧
      checkText "before_id" (es.getD "before_id" .null) = .ok p.before := by
  simp only [Position.check] at h
  cases hboth : Checked.both (checkNumber "absolute" (absoluteOf es))
      (Checked.both (checkText "after_id" (es.getD "after_id" .null))
        (checkText "before_id" (es.getD "before_id" .null))) with
  | error is =>
    rw [hboth] at h
    cases h
  | ok r =>
    rw [hboth] at h
    cases h
    obtain ⟨hx, hy⟩ := Checked.both_eq_ok hboth
    exact ⟨hx, Checked.both_eq_ok hy⟩

/-! ## Posted and given -/

/-- The exact position is null under its first spelling and given under the second. -/
def Shadowed (es : Entries String Value) : Prop :=
  Entries.get? "absolute" es = some .null ∧ isBlank (es.getD "absolute_position" .null) = false

/-- The exact position is no text whose underscores stand elsewhere than between digits. -/
def Joined (es : Entries String Value) : Prop :=
  ∀ s, exactOf es = .text s → (joinDigits false s.toList).isSome = true

/-- Where nothing is hidden, the exact position that is named is the one that was checked. -/
theorem exactOf_eq (h : checkNumber name (absoluteOf es) = .ok a)
    (hn : Entries.get? "absolute" es ≠ some .null) : exactOf es = absoluteOf es := by
  -- what passes the check and counts as blank is null
  have hkeep : (if isBlank (absoluteOf es) then .null else absoluteOf es) = absoluteOf es := by
    split
    · rename_i hb
      exact (eq_null_of_checkNumber h hb).symm
    · rfl
  cases hg : Entries.get? "absolute" es with
  | none =>
    have habsolute : absoluteOf es = es.getD "absolute_position" .null := by
      rw [absoluteOf, hg]
    rw [habsolute] at hkeep ⊢
    simp only [exactOf, Entries.getD, hg]
    exact hkeep
  | some v =>
    have habsolute : absoluteOf es = v := by rw [absoluteOf, hg]
    rw [habsolute] at h hkeep ⊢
    -- a value under the first spelling that is not null is the one that counts
    have hb : isBlank v = false := by
      by_contra hb
      have hnull := eq_null_of_checkNumber h (by simpa using hb)
      exact hn (hnull ▸ hg)
    simp only [exactOf, Entries.getD, hg, Option.getD_some, hb, Bool.false_eq_true, if_false]

/-- The exact position is read as it was checked, but for a null that hides it and for underscores. -/
theorem readExact_exactOf_iff (h : checkNumber name (absoluteOf es) = .ok a) :
    readExact (exactOf es) = .ok a ↔ ¬ Shadowed es ∧ Joined es := by
  by_cases hn : Entries.get? "absolute" es = some .null
  · -- null was checked, and what the other spelling names is read
    have ha : a = none := by
      rw [absoluteOf, hn] at h
      exact (Except.ok.inj h).symm
    have hexact : exactOf es = if isBlank (es.getD "absolute_position" .null) then .null
        else es.getD "absolute_position" .null := by
      simp only [exactOf, Entries.getD, hn]
      rfl
    subst ha
    cases hb : isBlank (es.getD "absolute_position" .null) with
    | true =>
      rw [hb, if_pos rfl] at hexact
      have hshadow : ¬ Shadowed es := fun hs => Bool.noConfusion (hb.symm.trans hs.2)
      have hjoined : Joined es := by
        intro s hs
        rw [hexact] at hs
        cases hs
      rw [hexact]
      exact ⟨fun _ => ⟨hshadow, hjoined⟩, fun _ => rfl⟩
    | false =>
      rw [hb, if_neg Bool.false_ne_true] at hexact
      have hread : readExact (exactOf es) ≠ .ok none := by
        intro hr
        have hnull := eq_null_of_readExact hr
        rw [← hexact, hnull] at hb
        cases hb
      exact ⟨fun hr => absurd hr hread, fun hc => absurd ⟨hn, hb⟩ hc.1⟩
  · have hshadow : ¬ Shadowed es := fun hs => hn hs.1
    rw [exactOf_eq h hn, readExact_iff h, Joined, exactOf_eq h hn]
    exact ⟨fun hj => ⟨hshadow, hj⟩, fun hc => hc.2⟩

/-- Parameters that pass the check are read as the same directive, posted or given, unless null hides
the exact position that is given under its second spelling, or an underscore in it stands elsewhere than
between digits. -/
theorem read_alike_iff (h : Position.check kind (.object es) = .ok p) :
    ofParams (.object p.toParams) = ofParams (.object es) ↔ ¬ Shadowed es ∧ Joined es := by
  obtain ⟨hexact, hafter, hbefore⟩ := check_object h
  rw [← readExact_exactOf_iff hexact, Position.toParams, ofParams_toParams, received,
    ofParams_of_names (checkText_eq_ok hafter) (checkText_eq_ok hbefore)]
  cases readExact (exactOf es) with
  | error f => simp
  | ok x => simp [eq_comm]

/-- An exact position before an empty name, with a second spelling that does not count. -/
theorem read_alike_spelledTwice :
    Position.check .notRecord (.object [("absolute", .real 5.0), ("absolute_position", "soon"),
      ("before_id", "")]) = .ok { absolute := some 5.0, before := some "" } ∧
    ofParams (.object (Position.toParams { absolute := some 5.0, before := some "" })) =
      ofParams (.object [("absolute", .real 5.0), ("absolute_position", "soon"), ("before_id", "")]) := by
  have hcheck : Position.check .notRecord (.object [("absolute", .real 5.0),
      ("absolute_position", "soon"), ("before_id", "")]) =
        .ok { absolute := some 5.0, before := some "" } := rfl
  refine ⟨hcheck, (read_alike_iff hcheck).2 ⟨fun hs => ?_, fun s hs => ?_⟩⟩
  · cases hs.1
  · cases hs

/-- Null hides an exact position from the check that the service reads. -/
theorem read_apart_hidden :
    Position.check .notRecord (.object [("absolute", .null), ("absolute_position", .real 4.0)]) =
      .ok {} ∧
    ofParams (.object (Position.toParams {})) ≠
      ofParams (.object [("absolute", .null), ("absolute_position", .real 4.0)]) :=
  ⟨rfl, nofun⟩

end Kanban.Http
