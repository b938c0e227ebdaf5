import Kanban.Json.Writer
import Kanban.Proofs.Decimal.Numeral
import Kanban.Proofs.Decimal.Shortest

/-!
# Kanban.Proofs.Json.Numbers — numbers are read back from JSON text

Whole numbers are written in digits. Floats are written with the fewest digits that read back, laid
out in full or in scientific form, and the reader makes the same float of all layouts of one decimal.

* `number_whole` — whole numbers that are not too long are read back.
* `number_pointed`, `number_scaled` — what the reader makes of digits around a point and of an
  exponent after them.
* `laid_magnitude` — the layouts are such texts, and stand for the shortest decimal.
* `number_render` — floats that are numbers are read back.
-/

namespace Kanban.Json

open Decimal Decimal.Numeral

variable {front back ds rest cs : List Char} {negative below : Bool} {c : Char}

/-! ## Parts of numbers -/

/-- Text that does not go on with a number. -/
def Stops (rest : List Char) : Prop :=
  ∀ c ∈ rest.head?, c.isDigit = false ∧ c ≠ '.' ∧ c ≠ 'e' ∧ c ≠ 'E'

theorem Stops.ends (h : Stops rest) : Ends rest := fun c hc => (h c hc).1

theorem ends_cons (h : c.isDigit = false) (rest : List Char) : Ends (c :: rest) := by
  intro d hd
  obtain rfl : c = d := Option.some.inj hd
  exact h

/-- Digits that may stand in front of a point: a zero, or digits that do not start with one. -/
def IsFront (front : List Char) : Prop :=
  front = ['0'] ∨ IsRow front ∧ front ≠ [] ∧ front.head? ≠ some '0'

theorem isFront_toDigits (n : Nat) : IsFront (Nat.toDigits 10 n) := by
  by_cases h : n = 0
  · rw [h]
    exact .inl (Nat.toDigits_zero 10)
  · exact .inr ⟨isRow_toDigits n, Nat.toDigits_ne_nil, head?_toDigits h⟩

theorem isFront_singleton (h : c.isDigit = true) : IsFront [c] := by
  by_cases hc : c = '0'
  · exact .inl (by rw [hc])
  · refine .inr ⟨?_, List.cons_ne_nil _ _, by simpa using hc⟩
    intro d hd
    rw [List.mem_singleton.1 hd]
    exact h

/-- Digits that do not start with a zero may be followed by any others. -/
theorem isFront_append (hf : IsRow front) (hne : front ≠ []) (h0 : front.head? ≠ some '0')
    (hb : IsRow back) : IsFront (front ++ back) := by
  refine .inr ⟨isRow_append hf hb, fun h => hne (List.append_eq_nil_iff.1 h).1, ?_⟩
  obtain ⟨c, ds, rfl⟩ := List.exists_cons_of_ne_nil hne
  exact h0

theorem IsFront.row (h : IsFront front) : IsRow front := by
  rcases h with rfl | ⟨hrow, -, -⟩
  · exact isRow_replicate 1
  · exact hrow

theorem IsFront.exists_cons (h : IsFront front) :
    ∃ c ds, front = c :: ds ∧ c.isDigit = true := by
  have hrow := h.row
  rcases h with rfl | ⟨-, hne, -⟩
  · exact ⟨'0', [], rfl, rfl⟩
  · obtain ⟨c, ds, rfl⟩ := List.exists_cons_of_ne_nil hne
    exact ⟨c, ds, rfl, hrow c List.mem_cons_self⟩

theorem front?_append (h : IsFront front) (hr : Ends rest) :
    front? (front ++ rest) = some (front, rest) := by
  rcases h with rfl | ⟨hrow, hne, h0⟩
  · rfl
  · obtain ⟨c, ds, rfl⟩ := List.exists_cons_of_ne_nil hne
    have hc : c ≠ '0' := by simpa using h0
    unfold front?
    split
    · rename_i heq
      exact absurd (List.cons.inj heq).1 hc
    · rw [digits_append hrow hr]
      rfl

/-- A point with the digits after it, or nothing. -/
def point (back : List Char) : List Char := if back = [] then [] else '.' :: back

theorem places?_point (hb : IsRow back) (hne : back ≠ []) (hr : Ends rest) :
    places? ('.' :: (back ++ rest)) = some (back, rest) := by
  have hempty : back.isEmpty = false := by simpa using hne
  unfold places?
  simp only [digits_append hb hr, hempty, Bool.false_eq_true, if_false]

theorem places?_none (h : ∀ c ∈ rest.head?, c ≠ '.') : places? rest = none := by
  unfold places?
  split
  · exact absurd rfl (h '.' rfl)
  · rfl

/-- The sign of an exponent. -/
def mark (below : Bool) : Char := if below then '-' else '+'

theorem power?_mark (below : Bool) (hd : IsRow ds) (hne : ds ≠ []) (hr : Ends rest) :
    power? ('e' :: mark below :: (ds ++ rest)) =
      some (if below then -(ofDigits ds : Int) else ofDigits ds, rest) := by
  have hempty : ds.isEmpty = false := by simpa using hne
  have hsign : sign (mark below :: (ds ++ rest)) = (below, ds ++ rest) := by
    cases below <;> rfl
  unfold power?
  simp only [true_or, if_true, hsign, digits_append hd hr, hempty, Bool.false_eq_true, if_false]

theorem power?_none (h : ∀ c ∈ rest.head?, c ≠ 'e' ∧ c ≠ 'E') : power? rest = none := by
  unfold power?
  split
  · rename_i c rest
    obtain ⟨he, hE⟩ := h c rfl
    rw [if_neg (by simp [he, hE])]
  · rfl

/-! ## Numbers -/

/-- The sign of a number. -/
def minus (negative : Bool) : List Char := if negative then ['-'] else []

theorem ne_minus (hc : c.isDigit = true) : c ≠ '-' := by
  rintro rfl
  cases hc

/-- A number with a point and no exponent. -/
theorem number_pointed (negative : Bool) (hf : IsFront front) (hb : IsRow back) (hne : back ≠ [])
    (hr : Stops rest) :
    number (minus negative ++ (front ++ '.' :: (back ++ rest))) =
      .ok (.real (if negative then -closest (ofDigits (front ++ back)) (0 - back.length)
        else closest (ofDigits (front ++ back)) (0 - back.length)), rest) := by
  have hfront : front? (front ++ '.' :: (back ++ rest)) = some (front, '.' :: (back ++ rest)) :=
    front?_append hf (ends_cons rfl _)
  have hplaces := places?_point hb hne hr.ends
  have hpower : power? rest = none := power?_none fun c hc => (hr c hc).2.2
  obtain ⟨c, ds, rfl, hc⟩ := hf.exists_cons
  rw [List.cons_append] at hfront ⊢
  cases negative <;> simp [number, minus, ne_minus hc, hfront, hplaces, hpower]

/-- A number with an exponent. -/
theorem number_scaled (negative below : Bool) (hf : IsFront front) (hb : IsRow back) (hd : IsRow ds)
    (hne : ds ≠ []) (hr : Stops rest) :
    number (minus negative ++ (front ++ (point back ++ 'e' :: mark below :: (ds ++ rest)))) =
      .ok (.real (if negative
        then -closest (ofDigits (front ++ back))
          ((if below then -(ofDigits ds : Int) else ofDigits ds) - back.length)
        else closest (ofDigits (front ++ back))
          ((if below then -(ofDigits ds : Int) else ofDigits ds) - back.length)), rest) := by
  have hpower := power?_mark below hd hne hr.ends
  obtain ⟨c, cs, rfl, hc⟩ := hf.exists_cons
  by_cases hback : back = []
  · subst hback
    have hends : Ends ('e' :: mark below :: (ds ++ rest)) := ends_cons rfl _
    have hfront := front?_append hf hends
    have hplaces : places? ('e' :: mark below :: (ds ++ rest)) = none :=
      places?_none fun c hc => by
        obtain rfl : 'e' = c := Option.some.inj hc
        decide
    have hpoint : point [] = [] := rfl
    rw [List.cons_append] at hfront
    rw [hpoint, List.nil_append, List.cons_append]
    cases negative <;> simp [number, minus, ne_minus hc, hfront, hplaces, hpower]
  · have hpoint : point back = '.' :: back := if_neg hback
    have hends : Ends ('e' :: mark below :: (ds ++ rest)) := ends_cons rfl _
    have hplaces := places?_point hb hback hends
    have hdot : Ends ('.' :: (back ++ 'e' :: mark below :: (ds ++ rest))) := ends_cons rfl _
    have hfront := front?_append hf hdot
    rw [List.cons_append] at hfront
    rw [hpoint, List.cons_append, List.cons_append]
    cases negative <;> simp [number, minus, ne_minus hc, hfront, hplaces, hpower]

/-- A whole number that is not too long is read back. -/
theorem number_whole {n : Int} (hn : (Nat.toDigits 10 n.natAbs).length ≤ maxDigits)
    (hr : Stops rest) : number ((toString n).toList ++ rest) = .ok (.whole n, rest) := by
  have htext : (toString n).toList = minus (n < 0) ++ Nat.toDigits 10 n.natAbs := by
    cases n with
    | ofNat k =>
      have hneg : ¬ Int.ofNat k < 0 := Int.not_lt.2 (Int.natCast_nonneg k)
      have hs : toString (Int.ofNat k) = toString k := rfl
      rw [hs, toList_toString]
      simp only [hneg, decide_false]
      rfl
    | negSucc k =>
      have hneg : Int.negSucc k < 0 := Int.negSucc_lt_zero k
      have hs : toString (Int.negSucc k) = "-" ++ toString (k + 1) := rfl
      rw [hs, String.toList_append, toList_toString]
      simp only [hneg, decide_true]
      rfl
  have hf := isFront_toDigits n.natAbs
  have hfront := front?_append hf hr.ends
  have hplaces : places? rest = none := places?_none fun c hc => (hr c hc).2.1
  have hpower : power? rest = none := power?_none fun c hc => (hr c hc).2.2
  have hvalue : (if decide (n < 0) = true then -((n.natAbs : Nat) : Int) else n.natAbs) = n := by
    by_cases hneg : n < 0
    · rw [if_pos (by simpa using hneg)]
      omega
    · rw [if_neg (by simpa using hneg)]
      omega
  obtain ⟨c, ds, hcons, hc⟩ := hf.exists_cons
  have hdigits := ofDigits_toDigits n.natAbs
  rw [htext, List.append_assoc]
  rw [hcons, List.cons_append] at hfront
  rw [hcons] at hn hdigits ⊢
  have hlong : ¬ maxDigits < ds.length + 1 := Nat.not_lt.2 hn
  rw [List.cons_append]
  generalize decide (n < 0) = negative at hvalue
  cases negative with
  | true => simpa [number, minus, hfront, hplaces, hpower, hlong, hdigits] using hvalue
  | false =>
    simpa [number, minus, ne_minus hc, hfront, hplaces, hpower, hlong, hdigits] using hvalue

/-- A whole number that is too long is not read. -/
theorem number_overlong (hf : IsFront front) (hlong : maxDigits < front.length) (hr : Stops rest) :
    number (front ++ rest) = .error .longNumeral := by
  have hfront := front?_append hf hr.ends
  have hplaces : places? rest = none := places?_none fun c hc => (hr c hc).2.1
  have hpower : power? rest = none := power?_none fun c hc => (hr c hc).2.2
  obtain ⟨c, ds, hcons, hc⟩ := hf.exists_cons
  rw [hcons, List.cons_append] at hfront ⊢
  rw [hcons, List.length_cons] at hlong
  simp [number, ne_minus hc, hfront, hplaces, hpower, hlong]

/-! ## Layouts -/

/-- The text of a number that is read as a decimal, whatever follows. -/
def Laid (text : List Char) (s : Scaled) : Prop :=
  ∀ (negative : Bool) (rest : List Char), Stops rest → ∃ (d : Nat) (p : Int),
    (d : ℚ) * 10 ^ p = s.digits * 10 ^ s.power ∧
      number (minus negative ++ (text ++ rest)) =
        .ok (.real (if negative then -closest d p else closest d p), rest)

variable {s : Scaled}

/-- Digits in scientific form. -/
theorem laid_scientific (below : Bool) {d : Char} (hs : Nat.toDigits 10 s.digits = d :: ds)
    (hb : below = true ↔ s.power + ds.length < 0) : Laid (d :: (point ds ++ 'e' :: mark below ::
      (Layout.exponentDigits (s.power + ds.length).natAbs).toList)) s := by
  intro negative rest hr
  have hrow : IsRow (d :: ds) := hs ▸ isRow_toDigits s.digits
  have hd : IsFront [d] := isFront_singleton (hrow d List.mem_cons_self)
  have hds : IsRow ds := fun c hc => hrow c (List.mem_cons_of_mem _ hc)
  -- the exponent has a zero in front if it has one digit only
  have hexp (n : Nat) : IsRow (Layout.exponentDigits n).toList ∧
      (Layout.exponentDigits n).toList ≠ [] ∧ ofDigits (Layout.exponentDigits n).toList = n := by
    unfold Layout.exponentDigits
    split
    · have hzero : "0".toList = List.replicate 1 '0' := rfl
      rw [String.toList_append, toList_toString, hzero]
      exact ⟨isRow_append (isRow_replicate 1) (isRow_toDigits n), by simp,
        by rw [ofDigits_zeros_append, ofDigits_toDigits]⟩
    · rw [toList_toString]
      exact ⟨isRow_toDigits n, Nat.toDigits_ne_nil, ofDigits_toDigits n⟩
  obtain ⟨hrowe, hnee, hvalue⟩ := hexp (s.power + ds.length).natAbs
  refine ⟨s.digits, s.power, rfl, ?_⟩
  have hnumber := number_scaled negative below hd hds hrowe hnee hr
  have hsigned : (if below = true then -((s.power + ds.length).natAbs : Int)
      else (s.power + ds.length).natAbs) - ds.length = s.power := by
    by_cases hneg : s.power + ds.length < 0
    · rw [if_pos (hb.2 hneg)]
      omega
    · rw [if_neg (fun h => hneg (hb.1 h))]
      omega
  have happend : [d] ++ ds = Nat.toDigits 10 s.digits := hs.symm
  rw [happend, ofDigits_toDigits, hvalue, hsigned] at hnumber
  simpa using hnumber

/-- Digits in full, with zeros up to the point. -/
theorem laid_full (hp : 0 ≤ s.power) (h0 : s.digits ≠ 0 ∨ s.power = 0) :
    Laid (Nat.toDigits 10 s.digits ++ List.replicate s.power.toNat '0' ++ ['.', '0']) s := by
  intro negative rest hr
  have hfront : IsFront (Nat.toDigits 10 s.digits ++ List.replicate s.power.toNat '0') := by
    by_cases hz : s.digits = 0
    · have hpower : s.power = 0 := h0.resolve_left fun h => h hz
      rw [hpower, hz]
      exact .inl rfl
    · exact isFront_append (isRow_toDigits _) Nat.toDigits_ne_nil (head?_toDigits hz)
        (isRow_replicate _)
  have hback : IsRow ['0'] := isRow_replicate 1
  have hnumber := number_pointed negative hfront hback (List.cons_ne_nil _ _) hr
  refine ⟨_, _, ?_, by simpa using hnumber⟩
  have hdigits : ofDigits (Nat.toDigits 10 s.digits ++ List.replicate s.power.toNat '0' ++ ['0']) =
      10 * (10 ^ s.power.toNat * s.digits) := by
    have hzeros (n : Nat) : ofDigits (List.replicate n '0') = 0 := by
      rw [ofDigits_eq, Nat.ofDigitChars_replicate_zero, Nat.mul_zero]
    have hzero : ofDigits ['0'] = 0 := hzeros 1
    rw [ofDigits_append, ofDigits_append, ofDigits_toDigits, hzeros, hzero, List.length_replicate]
    rfl
  have hexp : ((s.power.toNat : Nat) : Int) = s.power := Int.toNat_of_nonneg hp
  rw [← List.append_assoc, hdigits]
  push_cast
  rw [← zpow_natCast (10 : ℚ), hexp]
  have hten : (10 : ℚ) ^ (-1 : Int) = 1 / 10 := by norm_num
  rw [hten]
  ring

/-- Digits in full, with zeros behind the point. -/
theorem laid_fraction {padded : List Char} (hp : s.power < 0) (h0 : s.digits ≠ 0)
    (hpad : padded = List.replicate (s.power.natAbs + 1 - (Nat.toDigits 10 s.digits).length) '0' ++
      Nat.toDigits 10 s.digits) :
    Laid (padded.take (padded.length - s.power.natAbs) ++ '.' ::
      padded.drop (padded.length - s.power.natAbs)) s := by
  intro negative rest hr
  have hrow : IsRow padded := hpad ▸ isRow_append (isRow_replicate _) (isRow_toDigits _)
  have hlength : padded.length = max (s.power.natAbs + 1) (Nat.toDigits 10 s.digits).length := by
    rw [hpad, List.length_append, List.length_replicate]
    omega
  have hfront : IsFront (padded.take (padded.length - s.power.natAbs)) := by
    by_cases hlong : s.power.natAbs < (Nat.toDigits 10 s.digits).length
    · have hnone : s.power.natAbs + 1 - (Nat.toDigits 10 s.digits).length = 0 := by omega
      rw [hnone, List.replicate_zero, List.nil_append] at hpad
      refine .inr ⟨fun c hc => hrow c (List.mem_of_mem_take hc), ?_, ?_⟩
      · rw [Ne, List.take_eq_nil_iff, hpad]
        simp only [Nat.toDigits_ne_nil, or_false]
        omega
      · rw [List.head?_take, if_neg (by omega), hpad]
        exact head?_toDigits h0
    · -- the first digit is one of the zeros
      have hone : padded.length - s.power.natAbs = 1 := by omega
      obtain ⟨k, hk⟩ : ∃ k, s.power.natAbs + 1 - (Nat.toDigits 10 s.digits).length = k + 1 :=
        ⟨s.power.natAbs - (Nat.toDigits 10 s.digits).length, by omega⟩
      rw [hone, hpad, hk]
      exact .inl rfl
  have hback : IsRow (padded.drop (padded.length - s.power.natAbs)) := fun c hc =>
    hrow c (List.mem_of_mem_drop hc)
  have hbacklen : (padded.drop (padded.length - s.power.natAbs)).length = s.power.natAbs := by
    rw [List.length_drop]
    omega
  have hne : padded.drop (padded.length - s.power.natAbs) ≠ [] := by
    intro h
    rw [h, List.length_nil] at hbacklen
    omega
  have hnumber := number_pointed negative hfront hback hne hr
  refine ⟨s.digits, s.power, rfl, ?_⟩
  have hpower : (0 : Int) - ((s.power.natAbs : Nat) : Int) = s.power := by omega
  rw [List.take_append_drop, hbacklen, hpower, hpad, ofDigits_zeros_append, ofDigits_toDigits,
    ← hpad] at hnumber
  simpa using hnumber

/-- Whichever layout is chosen, it stands for the decimal. -/
theorem laid_magnitude (l : Layout) (h0 : s.digits ≠ 0 ∨ s.power = 0) :
    Laid (l.magnitude s).toList s := by
  unfold Layout.magnitude
  dsimp only
  split
  · obtain ⟨d, ds, hs⟩ := List.exists_cons_of_ne_nil (Nat.toDigits_ne_nil (n := s.digits) (b := 10))
    have htop : s.power + (((d :: ds).length - 1 : Nat) : Int) = s.power + ds.length := by simp
    rw [hs, htop]
    have hlaid := laid_scientific (decide (s.power + ds.length < 0)) hs (by simp)
    convert hlaid using 1
    rw [String.toList_append, String.toList_append]
    have hmark : (if s.power + (ds.length : Int) < 0 then "e-" else "e+").toList =
        ['e', mark (decide (s.power + ds.length < 0))] := by
      split
      · rename_i hneg
        simp [hneg, mark]
      · rename_i hneg
        simp [hneg, mark]
    rw [hmark]
    cases ds with
    | nil => simp [point]
    | cons e ds => simp [point]
  · split
    · rename_i hp
      have hlaid := laid_full hp h0
      convert hlaid using 1
      simp
    · rename_i hp
      have hlaid := laid_fraction (s := s) (Int.not_le.1 hp)
        (h0.resolve_right fun h => hp (by omega)) rfl
      convert hlaid using 1
      simp

/-- A float that is a number is read back. -/
theorem number_render {x : Float} {b : Binary} (hx : read x = .finite b) (l : Layout)
    (hr : Stops rest) : number ((render l x).toList ++ rest) = .ok (.real x, rest) := by
  have h0 : (shortest b).digits ≠ 0 ∨ (shortest b).power = 0 := by
    by_cases hm : b.mantissa = 0
    · have hs : shortest b = ⟨0, 0⟩ := if_pos hm
      exact .inr (by rw [hs])
    · refine .inl fun hz => ?_
      have hc := canonical_of_read hx hm
      have hpos := (rounds_shortest hc).pos hc
      rw [hz] at hpos
      simp at hpos
  obtain ⟨d, p, hv, hnumber⟩ := laid_magnitude l h0 b.negative rest hr
  have hsign : (if b.negative = true then "-" else "").toList = minus b.negative := by
    cases b.negative <;> rfl
  unfold render
  rw [hx]
  dsimp only
  rw [String.toList_append, hsign, List.append_assoc, hnumber, signed_closest hx hv]

end Kanban.Json
