import Kanban.Json.Writer

/-!
# Kanban.Proofs.Json.Strings — strings are read back from JSON text

Every character is written so that the reader gets it back: as itself, as an escape of one letter, by
its number in four hexadecimal digits, or by two such numbers if it is outside the basic plane.

* `hex_four` — numbers below 65536 have four hexadecimal digits.
* `string_escaped` — a character is read back, and the rest of the string after it.
* `string_quoted` — a string is read back.
-/

namespace Kanban.Json

variable {n : Nat} {c : Char} {cs rest : List Char}

/-! ## Hexadecimal digits -/

/-- Numbers below 65536 have four hexadecimal digits. -/
theorem hex_four (h : n < 65536) :
    Text.hex 4 n = [(n / 4096).digitChar, (n / 256 % 16).digitChar, (n / 16 % 16).digitChar,
      (n % 16).digitChar] := by
  have hzero : Nat.digitChar 0 = '0' := rfl
  have hlast {k : Nat} (hk : k < 16) : Nat.toDigits 16 k = [k.digitChar] :=
    Nat.toDigits_of_lt_base hk
  have hstep {k : Nat} (hk : 16 ≤ k) :
      Nat.toDigits 16 k = Nat.toDigits 16 (k / 16) ++ [(k % 16).digitChar] :=
    Nat.toDigits_of_base_le (by omega) hk
  have h256 : n / 16 / 16 = n / 256 := by omega
  have h4096 : n / 256 / 16 = n / 4096 := by omega
  unfold Text.hex
  -- by the number of digits that are not zeros in front
  rcases Nat.lt_or_ge n 16 with h1 | h1
  · rw [hlast h1, Nat.div_eq_of_lt (by omega : n < 4096), Nat.div_eq_of_lt (by omega : n < 256),
      Nat.div_eq_of_lt h1, Nat.mod_eq_of_lt h1]
    rfl
  · rw [hstep h1]
    rcases Nat.lt_or_ge n 256 with h2 | h2
    · rw [hlast (by omega), Nat.div_eq_of_lt (by omega : n < 4096),
        Nat.div_eq_of_lt (by omega : n < 256), Nat.mod_eq_of_lt (by omega : n / 16 < 16)]
      rfl
    · rw [hstep (by omega), h256]
      rcases Nat.lt_or_ge n 4096 with h3 | h3
      · rw [hlast (by omega), Nat.div_eq_of_lt h3, Nat.mod_eq_of_lt (by omega : n / 256 < 16)]
        rfl
      · rw [hstep (by omega), h4096, hlast (by omega)]
        rfl

/-- Four hexadecimal digits are read as the number they were written for. -/
theorem hex4?_hex (h : n < 65536) (rest : List Char) :
    hex4? (Text.hex 4 n ++ rest) = some (n, rest) := by
  have hdigit : ∀ k < 16, (if (Nat.digitChar k).isDigit then some ((Nat.digitChar k).toNat - 48)
      else if 'a' ≤ Nat.digitChar k ∧ Nat.digitChar k ≤ 'f' then some ((Nat.digitChar k).toNat - 87)
      else if 'A' ≤ Nat.digitChar k ∧ Nat.digitChar k ≤ 'F' then some ((Nat.digitChar k).toNat - 55)
      else none) = some k := by decide
  have hvalue : ((16 * (n / 4096) + n / 256 % 16) * 16 + n / 16 % 16) * 16 + n % 16 = n := by omega
  rw [hex_four h]
  unfold hex4?
  simp only [List.cons_append, List.nil_append, hdigit (n / 4096) (by omega),
    hdigit (n / 256 % 16) (by omega), hdigit (n / 16 % 16) (by omega), hdigit (n % 16) (by omega),
    hvalue]

/-! ## Characters -/

/-- No character has the number of half a character. -/
theorem not_surrogate (c : Char) : ¬ (0xd800 ≤ c.toNat ∧ c.toNat < 0xe000) := by
  have hvalid : c.toNat < 0xd800 ∨ 0xdfff < c.toNat ∧ c.toNat < 0x110000 := c.valid
  omega

theorem toNat_lt (c : Char) : c.toNat < 0x110000 := by
  have hvalid : c.toNat < 0xd800 ∨ 0xdfff < c.toNat ∧ c.toNat < 0x110000 := c.valid
  omega

/-- A character of the basic plane is what its number says. -/
theorem joined_toNat (c : Char) (rest : List Char) : joined c.toNat rest = (c, rest) := by
  have hc := not_surrogate c
  unfold joined
  rw [if_neg (by omega), if_neg (by omega), Char.ofNat_toNat]

/-- Two halves are put together again. -/
theorem joined_halves (h : ¬ c.toNat < 0x10000) (rest : List Char) :
    joined (0xd800 + (c.toNat - 0x10000) / 1024)
      ('\\' :: 'u' :: Text.hex 4 (0xdc00 + (c.toNat - 0x10000) % 1024) ++ rest) = (c, rest) := by
  have hmax := toNat_lt c
  have hlow : low? ('\\' :: 'u' :: Text.hex 4 (0xdc00 + (c.toNat - 0x10000) % 1024) ++ rest) =
      some (0xdc00 + (c.toNat - 0x10000) % 1024, rest) := by
    rw [List.cons_append, List.cons_append]
    unfold low?
    simp only [hex4?_hex (by omega : 0xdc00 + (c.toNat - 0x10000) % 1024 < 65536)]
    rw [if_pos (by omega)]
  have hvalue : 0x10000 + (0xd800 + (c.toNat - 0x10000) / 1024 - 0xd800) * 1024 +
      (0xdc00 + (c.toNat - 0x10000) % 1024 - 0xdc00) = c.toNat := by omega
  unfold joined
  rw [if_pos (by omega), hlow]
  dsimp only
  rw [hvalue, Char.ofNat_toNat]

/-- What reading the rest of a string comes to with a character in front. -/
def after (c : Char) (r : Option (List Char × List Char)) : Option (List Char × List Char) :=
  r.map fun (s, rest) => (c :: s, rest)

/-- An escape of one letter. -/
theorem string_letter {fuel : Nat} {l : Char} (h : letter? l = some c) (hu : l ≠ 'u') :
    string (fuel + 1) ('\\' :: l :: cs) = after c (string fuel cs) := by
  simp [string, h, after]

/-- An escape by number. -/
theorem string_code {fuel : Nat} (hn : n < 65536) (hc : joined n cs = (c, rest)) :
    string (fuel + 1) ('\\' :: 'u' :: Text.hex 4 n ++ cs) = after c (string fuel rest) := by
  simp [string, hex4?_hex hn, hc, after]

/-- A character that stands for itself. -/
theorem string_plain {fuel : Nat} (hq : c ≠ '"') (hb : c ≠ '\\') (hc : 32 ≤ c.toNat) :
    string (fuel + 1) (c :: cs) = after c (string fuel cs) := by
  have hlow : ¬ c.toNat < 32 := by omega
  simp [string, hb, hlow, after]

/-- A character is read back, and the rest of the string after it. -/
theorem string_escaped (fuel : Nat) (c : Char) (cs : List Char) :
    string (fuel + 1) (escaped c ++ cs) = after c (string fuel cs) := by
  -- the letters first
  by_cases hq : c = '"'
  · subst hq
    exact string_letter rfl (by decide)
  by_cases hb : c = '\\'
  · subst hb
    exact string_letter rfl (by decide)
  by_cases hn : c = '\n'
  · subst hn
    exact string_letter rfl (by decide)
  by_cases hr : c = '\r'
  · subst hr
    exact string_letter rfl (by decide)
  by_cases ht : c = '\t'
  · subst ht
    exact string_letter rfl (by decide)
  by_cases hf : c = '\x0c'
  · subst hf
    exact string_letter rfl (by decide)
  by_cases hbs : c = '\x08'
  · subst hbs
    exact string_letter rfl (by decide)
  unfold escaped
  rw [if_neg hq, if_neg hb, if_neg hn, if_neg hr, if_neg ht, if_neg hf, if_neg hbs]
  split
  · rename_i h
    exact string_plain hq hb h.1
  · split
    · rename_i h
      exact string_code h (joined_toNat c cs)
    · rename_i h
      have hmax := toNat_lt c
      dsimp only
      rw [List.append_assoc]
      exact string_code (by omega) (joined_halves h cs)

/-! ## Strings -/

theorem escaped_ne_nil (c : Char) : escaped c ≠ [] := by
  unfold escaped
  repeat' split
  all_goals exact List.cons_ne_nil _ _

/-- No string is longer than its text. -/
theorem length_le_flatMap (s : List Char) : s.length ≤ (s.flatMap escaped).length := by
  induction s with
  | nil => exact Nat.le_refl _
  | cons c s ih =>
    have hc : 0 < (escaped c).length := List.length_pos_iff.2 (escaped_ne_nil c)
    rw [List.flatMap_cons, List.length_append, List.length_cons]
    omega

/-- A closing quote ends a string. -/
theorem string_quote (fuel : Nat) (rest : List Char) :
    string (fuel + 1) ('"' :: rest) = some ([], rest) := by
  rw [string]

/-- A string is read back up to its closing quote. -/
theorem string_quoted {fuel : Nat} (s rest : List Char) (h : s.length < fuel) :
    string fuel (s.flatMap escaped ++ '"' :: rest) = some (s, rest) := by
  obtain ⟨fuel, rfl⟩ := Nat.exists_eq_add_of_lt h
  clear h
  induction s with
  | nil => exact string_quote _ rest
  | cons c s ih =>
    have hlen : (c :: s).length + fuel + 1 = s.length + fuel + 1 + 1 := by
      rw [List.length_cons]
      omega
    rw [List.flatMap_cons, List.append_assoc, hlen, string_escaped, ih]
    simp [after]

end Kanban.Json
