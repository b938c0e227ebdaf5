import Kanban.Directive
import Kanban.Proofs.Decimal.Whole

/-!
# Kanban.Proofs.Directive — how the parameters of a request are read

The parameters of a request name an exact position, under one of two spellings, and two neighbours. They
are read field by field, the position first. What cannot be read is a value that is no number, text that
is no numeral, a whole number that is too long to be written, or one beyond all floats.

* `overlong_whole_iff`, `toReal_eq_tooLarge_iff` — the whole numbers that are too long or too large.
* `exactOf`, `nameOf`, `ofParams_object` — what parameters name, and that this is what is read.
* `ofFields_eq` — what named fields come to.
* `ofParams_toParams` — a directive is read as it was sent, but for empty names.
* `fault_of_ofParams`, `ofParams_eq_tooLarge_iff` — why parameters cannot be read.
-/

namespace Kanban

namespace Value

/-- The whole numbers that are too long to be written. -/
theorem overlong_whole_iff (n : Int) :
    (Value.whole n).overlong = true ↔ 10 ^ Decimal.Numeral.maxDigits ≤ n.natAbs := by
  have hpos : 0 < Decimal.Numeral.maxDigits := by decide
  have hfits := Nat.length_toDigits_le_iff (b := 10) (n := n.natAbs) (by omega) hpos
  simp only [overlong, decide_eq_true_eq]
  omega

variable {v : Value} {f : Fault}

theorem toText_eq_error_iff : v.toText = .error f ↔ v.overlong = true ∧ f = .malformed := by
  unfold toText
  cases v.overlong <;> simp [eq_comm]

theorem toReal_error (h : v.toReal = .error f) : f = .wrongKind ∨ f = .malformed ∨ f = .tooLarge := by
  cases f with
  | wrongKind => exact .inl rfl
  | malformed => exact .inr (.inl rfl)
  | tooLarge => exact .inr (.inr rfl)
  | missing _ | notRecord =>
    unfold toReal at h
    split at h <;> first | cases h | (split at h <;> cases h)

/-- Only whole numbers are too large for a float: those beyond all floats. -/
theorem toReal_eq_tooLarge_iff :
    v.toReal = .error .tooLarge ↔ ∃ n, v = .whole n ∧ 2 ^ 1024 - 2 ^ 970 ≤ n.natAbs := by
  constructor
  · intro h
    -- of all values only a whole number can be too large, as a text it is infinite
    cases v with
    | whole n =>
      simp only [toReal] at h
      split at h
      · cases h
      · rename_i hn
        exact ⟨n, rfl, (Decimal.ofWhole?_eq_none_iff n).1 hn⟩
    | text s =>
      simp only [toReal] at h
      split at h <;> cases h
    | _ => cases h
  · rintro ⟨n, rfl, hn⟩
    simp only [toReal, (Decimal.ofWhole?_eq_none_iff n).2 hn]

end Value

namespace Directive

variable {x after before v : Value} {f : Fault}

/-! ## What parameters name -/

/-- The exact position that parameters name, null if they name none: blanks do not count. -/
def exactOf (es : Entries String Value) : Value :=
  let first := es.getD "absolute" .null
  let x := if isBlank first then es.getD "absolute_position" .null else first
  if isBlank x then .null else x

/-- What parameters name under a key, null if that does not count as given. -/
def nameOf (key : String) (es : Entries String Value) : Value :=
  ((es.getD key .null).given?).getD .null

/-- Parameters are read by what they name. -/
theorem ofParams_object (es : Entries String Value) :
    ofParams (.object es) = ofFields (exactOf es) (nameOf "after_id" es) (nameOf "before_id" es) := by
  cases es with
  | nil => rfl
  | cons e es => rfl

/-! ## Reading what is named -/

/-- The position that a field denotes, if it names one. -/
def readExact : Value → Except Fault (Option Float)
  | .null => .ok none
  | x => some <$> x.toReal

/-- The text of a field, if it names something. -/
def textOf? : Value → Option String
  | .null => none
  | v => some v.shown

theorem readExact_eq_error_iff : readExact x = .error f ↔ x ≠ .null ∧ x.toReal = .error f := by
  cases x with
  | null => simp [readExact]
  | _ =>
    simp only [readExact, ne_eq, reduceCtorEq, not_false_eq_true, true_and]
    cases Value.toReal _ <;> simp [Functor.map, Except.map]

theorem idOf_eq (v : Value) :
    idOf v = if v.overlong then .error .malformed else .ok (textOf? v) := by
  cases v with
  | null => rfl
  | _ =>
    simp only [idOf, Value.toText, textOf?]
    split <;> rfl

/-- Fields are read if the position is, and if the neighbours can be written. -/
theorem ofFields_eq (x after before : Value) :
    ofFields x after before = match readExact x with
      | .error f => .error f
      | .ok r =>
        if after.overlong || before.overlong then .error .malformed
        else .ok ⟨r, textOf? after, textOf? before⟩ := by
  -- whatever the exact position is, the names are read after it
  have hnames (r : Option Float) : (do
      let a ← idOf after
      let b ← idOf before
      pure { absolute := r, after := a, before := b } : Except Fault Directive) =
        if after.overlong || before.overlong then .error .malformed
        else .ok ⟨r, textOf? after, textOf? before⟩ := by
    rw [idOf_eq, idOf_eq]
    cases after.overlong <;> cases before.overlong <;> rfl
  cases x with
  | null => exact hnames none
  | _ =>
    simp only [ofFields, readExact]
    cases Value.toReal _ with
    | error f => rfl
    | ok r => exact hnames (some r)

theorem overlong_ofText? (i : Option String) : (Value.ofText? i).overlong = false := by
  cases i <;> rfl

theorem textOf?_ofText? (i : Option String) : textOf? (.ofText? i) = i := by
  cases i <;> rfl

/-- A name counts as given unless it is empty. -/
theorem nameOf_of_getD {key : String} {es : Entries String Value} {i : Option String}
    (h : es.getD key .null = .ofText? i) : nameOf key es = .ofText? (i.filter (· ≠ "")) := by
  rw [nameOf, h]
  cases i with
  | none => rfl
  | some s => by_cases hs : s = "" <;> simp [Value.ofText?, Value.given?, Value.given, Option.filter, hs]

/-- Parameters whose neighbours are text are read by their exact position. -/
theorem ofParams_of_names {es : Entries String Value} {i j : Option String}
    (hi : es.getD "after_id" .null = .ofText? i) (hj : es.getD "before_id" .null = .ofText? j) :
    ofParams (.object es) = match readExact (exactOf es) with
      | .error f => .error f
      | .ok x => .ok ⟨x, i.filter (· ≠ ""), j.filter (· ≠ "")⟩ := by
  rw [ofParams_object, ofFields_eq, nameOf_of_getD hi, nameOf_of_getD hj]
  simp only [overlong_ofText?, textOf?_ofText?, Bool.or_self, Bool.false_eq_true, if_false]

/-! ## Directives on the way -/

/-- A directive as it is read from its parameters: an empty name names no card. -/
def received (d : Directive) : Directive where
  absolute := d.absolute
  after := d.after.filter (· ≠ "")
  before := d.before.filter (· ≠ "")

/-- A directive without empty names is read as it was sent. -/
theorem received_eq {d : Directive} (ha : d.after ≠ some "") (hb : d.before ≠ some "") :
    d.received = d := by
  have hkeep {i : Option String} (hi : i ≠ some "") : i.filter (· ≠ "") = i := by
    cases i with
    | none => rfl
    | some t =>
      have ht : t ≠ "" := fun h => hi (congrArg some h)
      simp [ht]
  simp only [received, hkeep ha, hkeep hb]

theorem ofParams_toParams (d : Directive) : ofParams (.object d.toParams) = .ok d.received := by
  have hafter : d.toParams.getD "after_id" .null = .ofText? d.after := by
    obtain ⟨_ | _, _ | _, _ | _⟩ := d <;> rfl
  have hbefore : d.toParams.getD "before_id" .null = .ofText? d.before := by
    obtain ⟨_ | _, _ | _, _ | _⟩ := d <;> rfl
  have hexact : readExact (exactOf d.toParams) = .ok d.absolute := by
    obtain ⟨_ | _, _ | _, _ | _⟩ := d <;> rfl
  rw [ofParams_of_names hafter hbefore, hexact, received]

/-! ## What cannot be read -/

theorem ofParams_object_error {es : Entries String Value} (h : ofParams (.object es) = .error f) :
    (exactOf es).toReal = .error f ∨ f = .malformed := by
  rw [ofParams_object, ofFields_eq] at h
  split at h
  · rename_i hx
    obtain rfl := Except.error.inj h
    exact .inl (readExact_eq_error_iff.1 hx).2
  · split at h
    · exact .inr (Except.error.inj h).symm
    · cases h

/-- Parameters cannot be read for one of three reasons. -/
theorem fault_of_ofParams {es : Entries String Value} (h : ofParams (.object es) = .error f) :
    f = .wrongKind ∨ f = .malformed ∨ f = .tooLarge := by
  rcases ofParams_object_error h with hx | hf
  · exact Value.toReal_error hx
  · exact .inr (.inl hf)

/-- Parameters fail for the size of a number if they name a position beyond all floats. -/
theorem ofParams_eq_tooLarge_iff (es : Entries String Value) :
    ofParams (.object es) = .error .tooLarge ↔
      ∃ n, exactOf es = .whole n ∧ 2 ^ 1024 - 2 ^ 970 ≤ n.natAbs := by
  constructor
  · intro h
    -- the fault is the exact position's or a name's, and a name is never too large
    rcases ofParams_object_error h with hx | hf
    · exact Value.toReal_eq_tooLarge_iff.1 hx
    · cases hf
  · rintro ⟨n, hn, hlarge⟩
    have hx : readExact (exactOf es) = .error .tooLarge := by
      refine readExact_eq_error_iff.2 ⟨?_, Value.toReal_eq_tooLarge_iff.2 ⟨n, hn, hlarge⟩⟩
      rw [hn]
      exact nofun
    rw [ofParams_object, ofFields_eq, hx]

end Directive

end Kanban
