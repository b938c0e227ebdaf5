import Mathlib.Algebra.Ring.Nat
import Kanban.Repository

/-!
# Kanban.Proofs.Decimal.Numeral — rows of digits

A number that is written in digits is read back from them, in JSON text as well as in the numerals
that people write.

* `digits_append` — the digits at the front of a text end where something else begins.
* `ofDigits_toDigits` — the digits of a number denote it.
* `stageNumber_toString` — a stage id that is a number is read as that number, unless it is too long.
-/

namespace Kanban

namespace Decimal.Numeral

variable {ds rest : List Char}

/-- A row of digits. -/
def IsRow (ds : List Char) : Prop := ∀ c ∈ ds, c.isDigit = true

/-- Text at whose front there is no digit. -/
def Ends (rest : List Char) : Prop := ∀ c ∈ rest.head?, c.isDigit = false

theorem isRow_toDigits (n : Nat) : IsRow (Nat.toDigits 10 n) := fun _ hc =>
  Nat.isDigit_of_mem_toDigits (by omega) (by omega) hc

theorem isRow_append {ds' : List Char} (h : IsRow ds) (h' : IsRow ds') : IsRow (ds ++ ds') := by
  intro c hc
  rcases List.mem_append.1 hc with hc | hc
  · exact h c hc
  · exact h' c hc

theorem isRow_replicate (n : Nat) : IsRow (List.replicate n '0') := by
  intro c hc
  rw [List.eq_of_mem_replicate hc]
  rfl

theorem digits_append (h : IsRow ds) (hr : Ends rest) : digits (ds ++ rest) = (ds, rest) := by
  have htake : rest.takeWhile Char.isDigit = [] := by
    cases rest with
    | nil => rfl
    | cons c rest => simp [hr c rfl]
  have hdrop : rest.dropWhile Char.isDigit = rest := by
    cases rest with
    | nil => rfl
    | cons c rest => simp [hr c rfl]
  unfold digits
  rw [List.takeWhile_append_of_pos h, List.dropWhile_append_of_pos h, htake, hdrop, List.append_nil]

theorem digits_row (h : IsRow ds) : digits ds = (ds, []) := by
  have hd : digits (ds ++ []) = (ds, []) := digits_append h (by simp [Ends])
  rwa [List.append_nil] at hd

theorem ofDigits_eq (ds : List Char) : ofDigits ds = Nat.ofDigitChars 10 ds 0 := by
  unfold ofDigits
  rw [Nat.ofDigitChars_eq_foldl]
  rfl

@[simp] theorem ofDigits_toDigits (n : Nat) : ofDigits (Nat.toDigits 10 n) = n := by
  rw [ofDigits_eq, Nat.ofDigitChars_ten_toDigits]

theorem toList_toString (n : Nat) : (toString n).toList = Nat.toDigits 10 n := Nat.toList_repr

theorem ofDigits_append (ds ds' : List Char) :
    ofDigits (ds ++ ds') = 10 ^ ds'.length * ofDigits ds + ofDigits ds' := by
  simp only [ofDigits_eq]
  rw [Nat.ofDigitChars_append, Nat.ofDigitChars_eq_ofDigitChars_zero]

/-- Zeros in front of a number do not count. -/
theorem ofDigits_zeros_append (n : Nat) (ds : List Char) :
    ofDigits (List.replicate n '0' ++ ds) = ofDigits ds := by
  rw [ofDigits_append, ofDigits_eq (List.replicate n '0'), Nat.ofDigitChars_replicate_zero]
  simp

/-- Only zero starts with a zero. -/
theorem head?_toDigits {n : Nat} (h : n ≠ 0) : (Nat.toDigits 10 n).head? ≠ some '0' := by
  induction n using Nat.strongRecOn with
  | ind n ih =>
    rw [Nat.toDigits_eq_if (by omega)]
    split
    · simpa using h
    · rename_i hlarge
      -- With more than one digit, the leading one is that of `n / 10`.
      have hfront : n / 10 ≠ 0 := by omega
      obtain ⟨c, ds, hds⟩ := List.exists_cons_of_ne_nil (Nat.toDigits_ne_nil (n := n / 10) (b := 10))
      have hhead := ih (n / 10) (by omega) hfront
      rw [hds] at hhead ⊢
      exact hhead

/-! ## Numerals of digits alone -/

/-- A digit is between the ASCII characters of zero and nine. -/
theorem toNat_of_isDigit {c : Char} (h : c.isDigit = true) : 48 ≤ c.toNat ∧ c.toNat ≤ 57 := by
  simp only [Char.isDigit, Bool.and_eq_true, decide_eq_true_eq, UInt32.le_iff_toNat_le] at h
  exact h

theorem not_isAsciiBlank_of_isDigit {c : Char} (h : c.isDigit = true) :
    Text.isAsciiBlank c = false := by
  have hn := toNat_of_isDigit h
  have hne : c ≠ ' ' := by
    rintro rfl
    simp at hn
  simp [Text.isAsciiBlank, hne]
  omega

theorem isDigitSign_of_isDigit {c : Char} (h : c.isDigit = true) : Text.isDigitSign c = true := by
  obtain ⟨hlow, hhigh⟩ := toNat_of_isDigit h
  have hzero : Text.zeros.find? (fun z => z ≤ c.toNat && c.toNat < z + 10) = some 48 := by
    refine List.find?_cons_of_pos ?_
    simp only [Bool.and_eq_true, decide_eq_true_eq]
    omega
  unfold Text.isDigitSign Text.digit?
  rw [hzero]
  rfl

theorem toAscii_row (h : IsRow ds) : toAscii ds = some ds := by
  refine if_pos (List.all_eq_true.2 fun c hc => ?_)
  have hn := toNat_of_isDigit (h c hc)
  simp only [decide_eq_true_eq]
  omega

theorem trimBy_row (h : IsRow ds) : Text.trimBy Text.isAsciiBlank ds = ds := by
  have hdrop {l : List Char} (hl : IsRow l) : l.dropWhile Text.isAsciiBlank = l := by
    cases l with
    | nil => rfl
    | cons c l => simp [not_isAsciiBlank_of_isDigit (hl c (by simp))]
  unfold Text.trimBy
  rw [hdrop h, hdrop (fun c hc => h c (List.mem_reverse.1 hc)), List.reverse_reverse]

theorem sign_row (h : IsRow ds) : sign ds = (false, ds) := by
  unfold sign
  split
  · have hd := h '-' (by simp)
    simp at hd
  · have hd := h '+' (by simp)
    simp at hd
  · rfl

/-- A row of digits is read as the number it denotes, if it is not too long. -/
theorem wholeOf?_row (h : IsRow ds) (hne : ds ≠ []) :
    wholeOf? (String.ofList ds) =
      if maxDigits < ds.length then none else some (ofDigits ds : Int) := by
  have hplain : '_' ∉ ds := by
    intro hc
    have hd := h '_' hc
    simp at hd
  have hempty : ds.isEmpty = false := by simpa using hne
  unfold wholeOf?
  simp only [String.toList_ofList, toAscii_row h, Option.bind_eq_bind, Option.bind_some,
    trimBy_row h, joinDigits_of_plain ds hplain, sign_row h, digits_row h, hempty, List.isEmpty_nil]
  simp

end Decimal.Numeral

namespace Repository

open Decimal.Numeral

/-- A stage id that is a number is read as that number, unless it is too long. -/
theorem stageNumber_toString (n : Nat) :
    stageNumber (toString n) =
      if maxDigits < (toString n).length then .error .malformed else .ok (some n) := by
  have hrow := isRow_toDigits n
  have hne : Nat.toDigits 10 n ≠ [] := Nat.toDigits_ne_nil
  have hlist : toString n = String.ofList (Nat.toDigits 10 n) := Nat.toString_eq_ofList_toDigits
  have hall : (toString n).toList.all Text.isDigitSign = true := by
    rw [hlist, String.toList_ofList]
    exact List.all_eq_true.2 fun c hc => isDigitSign_of_isDigit (hrow c hc)
  have htext : toString n ≠ "" := by
    intro hempty
    have hlen := congrArg String.length hempty
    have hpos : 0 < (Nat.toDigits 10 n).length := Nat.length_toDigits_pos
    rw [hlist, String.length_ofList] at hlen
    simp only [String.length_empty] at hlen
    omega
  -- The digits pass for a number, so only their count decides.
  unfold stageNumber Value.toWhole
  rw [if_pos ⟨htext, hall⟩, hlist]
  dsimp only
  rw [wholeOf?_row hrow hne, String.length_ofList, ofDigits_toDigits]
  by_cases hlong : maxDigits < (Nat.toDigits 10 n).length
  · simp only [hlong, if_true]
    rfl
  · simp only [hlong, if_false]
    rfl

end Repository

end Kanban
