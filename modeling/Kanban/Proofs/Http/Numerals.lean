import Kanban.Http.MoveBody
import Kanban.Proofs.Decimal.Numeral

/-!
# Kanban.Proofs.Http.Numerals — the numerals of requests

A number in a request may be written as text. The check of a request reads such text in its own way: it
knows the digits of ASCII only, and takes out underscores wherever they stand alone. What it accepts is
the number that is read elsewhere, unless an underscore stands beside something other than a digit;
that text is no numeral elsewhere.

* `IsMark` — the characters of a numeral without blanks and underscores.
* `joinDigits_eq_some` — what is left when underscores are taken out.
* `realOf?_of_numeral?` — the two readings compared.
-/

namespace Kanban.Http

open Decimal Decimal.Numeral

variable {c : Char} {cs t : List Char} {x : Float}

/-! ## The characters of numerals -/

/-- A character that numerals are made of: a letter of ASCII, a digit, a sign or a point. -/
def IsMark (c : Char) : Prop :=
  (43 ≤ c.toNat ∧ c.toNat ≤ 57) ∨ (65 ≤ c.toNat ∧ c.toNat ≤ 90) ∨ (97 ≤ c.toNat ∧ c.toNat ≤ 122)

theorem isMark_of_isDigit (h : c.isDigit = true) : IsMark c := by
  have hc := toNat_of_isDigit h
  exact .inl ⟨by omega, hc.2⟩

/-- A character that becomes a small letter is a letter. -/
theorem isMark_of_toLower (h : 97 ≤ c.toLower.toNat ∧ c.toLower.toNat ≤ 122) : IsMark c := by
  unfold Char.toLower at h
  split at h
  · rename_i hc
    have hlow : 65 ≤ c.toNat := hc.1
    have hhigh : c.toNat ≤ 90 := hc.2
    exact .inr (.inl ⟨hlow, hhigh⟩)
  · exact .inr (.inr h)

/-- What is a name in small letters is made of letters. -/
theorem isMark_of_name {name : String}
    (hname : (name.toList.all fun d => 97 ≤ d.toNat && d.toNat ≤ 122) = true)
    (h : cs.map Char.toLower = name.toList) : ∀ c ∈ cs, IsMark c := by
  intro c hc
  have hmem : c.toLower ∈ name.toList := h ▸ List.mem_map_of_mem hc
  have hlow := List.all_eq_true.1 hname c.toLower hmem
  rw [Bool.and_eq_true, decide_eq_true_eq, decide_eq_true_eq] at hlow
  exact isMark_of_toLower hlow

theorem isMark_of_sign (h : ∀ c ∈ (sign cs).2, IsMark c) : ∀ c ∈ cs, IsMark c := by
  unfold sign at h
  split at h
  · exact List.forall_mem_cons.2 ⟨.inl (by decide), h⟩
  · exact List.forall_mem_cons.2 ⟨.inl (by decide), h⟩
  · exact h

/-- Digits at the front are marks, and so is everything if what is behind them is. -/
theorem isMark_of_digits (h : ∀ c ∈ (digits cs).2, IsMark c) : ∀ c ∈ cs, IsMark c := by
  intro c hc
  rw [← List.takeWhile_append_dropWhile (p := Char.isDigit) (l := cs)] at hc
  rcases List.mem_append.1 hc with hfront | hrest
  · exact isMark_of_isDigit (List.all_eq_true.1 List.all_takeWhile c hfront)
  · exact h c hrest

theorem isMark_of_fraction (h : ∀ c ∈ (fraction cs).2.2, IsMark c) : ∀ c ∈ cs, IsMark c := by
  refine isMark_of_digits ?_
  unfold fraction at h
  dsimp only at h
  split at h
  · rename_i rest hrest
    rw [hrest]
    exact List.forall_mem_cons.2 ⟨.inl (by decide), isMark_of_digits h⟩
  · exact h

theorem isMark_of_exponent? {n : Int} (h : exponent? cs = some n) : ∀ c ∈ cs, IsMark c := by
  unfold exponent? at h
  split at h
  · exact nofun
  · rename_i c rest
    split at h
    · rename_i hc
      have hmark : IsMark c := by
        rcases hc with rfl | rfl
        · exact .inr (.inr (by decide))
        · exact .inr (.inl (by decide))
      refine List.forall_mem_cons.2 ⟨hmark, isMark_of_sign (isMark_of_digits ?_)⟩
      dsimp only at h
      split at h
      · cases h
      · rename_i hends
        -- nothing is left behind the digits
        simp only [Bool.or_eq_true, Bool.not_eq_true', not_or, Bool.not_eq_false,
          List.isEmpty_iff] at hends
        rw [hends.2]
        exact nofun
    · cases h

theorem isMark_of_unsigned? (h : unsigned? cs = some x) : ∀ c ∈ cs, IsMark c := by
  unfold unsigned? at h
  dsimp only at h
  split at h
  · rename_i hname
    rcases hname with hname | hname
    · exact isMark_of_name rfl hname
    · exact isMark_of_name rfl hname
  · split at h
    · rename_i hname
      exact isMark_of_name rfl hname
    · split at h
      · cases h
      · obtain ⟨n, hn, -⟩ := Option.map_eq_some_iff.1 h
        exact isMark_of_fraction (isMark_of_exponent? hn)

theorem isMark_of_signed? (h : signed? cs = some x) : ∀ c ∈ cs, IsMark c := by
  obtain ⟨y, hy, -⟩ := Option.map_eq_some_iff.1 h
  exact isMark_of_sign (isMark_of_unsigned? hy)

/-! ## Blanks and underscores -/

theorem IsMark.not_blank (h : IsMark c) : Text.isAsciiBlank c = false := by
  have hne : c ≠ ' ' := by
    rintro rfl
    simp [IsMark] at h
  unfold IsMark at h
  simp [Text.isAsciiBlank, hne]
  omega

theorem IsMark.ne_underscore (h : IsMark c) : c ≠ '_' := by
  rintro rfl
  revert h
  simp [IsMark]

/-- Padding in ASCII is what separates numerals everywhere. -/
theorem isAsciiBlank_of_isPadding (h : isPadding c = true) (hc : c.toNat < 128) :
    Text.isAsciiBlank c = true := by
  simp [isPadding, Text.isBlank, Text.blanks] at h
  by_cases hsp : c = ' '
  · rw [hsp]
    rfl
  · have hne : c.toNat ≠ 32 := fun h => hsp (Char.toNat_inj.1 h)
    simp [Text.isAsciiBlank, hsp]
    omega

/-- Padding is blank, and in ASCII or beyond it. -/
theorem isBlank_of_isPadding (h : isPadding c = true) : Text.isBlank c = true :=
  (Bool.and_eq_true_iff.1 h).1

theorem trimBy_parts (p : Char → Bool) (cs : List Char) :
    ∃ pre post, cs = pre ++ Text.trimBy p cs ++ post ∧ (∀ c ∈ pre, p c = true) ∧
      ∀ c ∈ post, p c = true := by
  refine ⟨cs.takeWhile p, ((cs.dropWhile p).reverse.takeWhile p).reverse, ?_, ?_, ?_⟩
  · have hback := congrArg List.reverse
      (List.takeWhile_append_dropWhile (p := p) (l := (cs.dropWhile p).reverse))
    rw [List.reverse_append, List.reverse_reverse] at hback
    rw [Text.trimBy, List.append_assoc, hback, List.takeWhile_append_dropWhile]
  · exact fun c hc => List.all_eq_true.1 List.all_takeWhile c hc
  · exact fun c hc => List.all_eq_true.1 List.all_takeWhile c (List.mem_reverse.1 hc)

theorem trimBy_padded {p : Char → Bool} {pre post : List Char} (hpre : ∀ c ∈ pre, p c = true)
    (ht : ∀ c ∈ t, p c = false) (hpost : ∀ c ∈ post, p c = true) :
    Text.trimBy p (pre ++ t ++ post) = t := by
  have hdrop {l : List Char} (hl : ∀ c ∈ l, p c = false) : l.dropWhile p = l := by
    cases l with
    | nil => rfl
    | cons c l => simp [hl c (by simp)]
  have hfront : (pre ++ t ++ post).dropWhile p = (t ++ post).dropWhile p := by
    rw [List.append_assoc, List.dropWhile_append_of_pos hpre]
  unfold Text.trimBy
  rw [hfront]
  cases t with
  | nil =>
    have hnil : post.dropWhile p = [] := by
      rw [← List.append_nil post, List.dropWhile_append_of_pos hpost, List.dropWhile_nil]
    simp [hnil]
  | cons c t =>
    have hself : (c :: t ++ post).dropWhile p = c :: t ++ post := by
      rw [List.cons_append, List.dropWhile_cons_of_neg (by simp [ht c (by simp)])]
    rw [hself, List.reverse_append,
      List.dropWhile_append_of_pos (fun d hd => hpost d (List.mem_reverse.1 hd)),
      hdrop (fun d hd => ht d (List.mem_reverse.1 hd)), List.reverse_reverse]

/-- A reading of characters one by one that succeeds for each of them. -/
theorem mapM_eq_map {f : Char → Option Char} {g : Char → Char} (h : ∀ c ∈ cs, f c = some (g c)) :
    cs.mapM f = some (cs.map g) := by
  induction cs with
  | nil => rfl
  | cons c cs ih =>
    rw [List.mapM_cons, h c (by simp), ih fun d hd => h d (by simp [hd])]
    rfl

/-- A character of a numeral or of its padding, in ASCII. -/
def blanked (c : Char) : Char := if c.toNat < 127 then c else ' '

theorem isAsciiBlank_blanked (h : isPadding c = true) : Text.isAsciiBlank (blanked c) = true := by
  unfold blanked
  split
  · exact isAsciiBlank_of_isPadding h (by omega)
  · rfl

theorem IsMark.lt (h : IsMark c) : c.toNat < 127 := by
  unfold IsMark at h
  omega

theorem map_blanked (h : ∀ c ∈ t, IsMark c) : t.map blanked = t := by
  have hself : t.map blanked = t.map id := List.map_congr_left fun c hc => if_pos (h c hc).lt
  rw [hself, List.map_id]

/-- A numeral with padding around it is written in ASCII with blanks around it. -/
theorem toAscii_padded {pre post : List Char} (hpre : ∀ c ∈ pre, isPadding c = true)
    (ht : ∀ c ∈ t, IsMark c) (hpost : ∀ c ∈ post, isPadding c = true) :
    ∃ pre' post', toAscii (pre ++ t ++ post) = some (pre' ++ t ++ post') ∧
      (∀ c ∈ pre', Text.isAsciiBlank c = true) ∧ ∀ c ∈ post', Text.isAsciiBlank c = true := by
  unfold toAscii
  split
  · rename_i hall
    have hascii : ∀ c ∈ pre ++ t ++ post, c.toNat < 128 := fun c hc =>
      of_decide_eq_true (List.all_eq_true.1 hall c hc)
    refine ⟨pre, post, rfl, fun c hc => ?_, fun c hc => ?_⟩
    · exact isAsciiBlank_of_isPadding (hpre c hc) (hascii c (by simp [hc]))
    · exact isAsciiBlank_of_isPadding (hpost c hc) (hascii c (by simp [hc]))
  · -- characters beyond ASCII are padding, and become blanks
    have hread : ∀ c ∈ pre ++ t ++ post, (if c.toNat < 127 then some c
        else if Text.isBlank c = true then some ' ' else (Text.digit? c).map Text.ofDigit) =
          some (blanked c) := by
      intro c hc
      unfold blanked
      split
      · rfl
      · rename_i hbeyond
        have hblank : Text.isBlank c = true := by
          rcases List.mem_append.1 hc with hc | hc
          · rcases List.mem_append.1 hc with hc | hc
            · exact isBlank_of_isPadding (hpre c hc)
            · exact absurd (ht c hc).lt hbeyond
          · exact isBlank_of_isPadding (hpost c hc)
        rw [if_pos hblank]
    refine ⟨pre.map blanked, post.map blanked, ?_, ?_, ?_⟩
    · rw [mapM_eq_map hread, List.map_append, List.map_append, map_blanked ht]
    · intro c hc
      obtain ⟨d, hd, rfl⟩ := List.mem_map.1 hc
      exact isAsciiBlank_blanked (hpre d hd)
    · intro c hc
      obtain ⟨d, hd, rfl⟩ := List.mem_map.1 hc
      exact isAsciiBlank_blanked (hpost d hd)

/-- Taking out the underscores between digits leaves everything else. -/
theorem joinDigits_eq_some {after : Bool} (h : joinDigits after cs = some t) :
    t = cs.filter (· ≠ '_') := by
  induction after, cs using joinDigits.induct generalizing t with
  | case1 after => exact (Option.some.inj h).symm
  | case2 after c rest hc ih =>
    rw [joinDigits, if_pos hc] at h
    obtain ⟨t', ht', rfl⟩ := Option.map_eq_some_iff.1 h
    have hne : c ≠ '_' := by
      rintro rfl
      simp at hc
    rw [ih ht']
    simp [hne]
  | case3 after c rest hc =>
    rw [joinDigits, if_neg hc] at h
    cases h
  | case4 after rest hrest =>
    cases rest with
    | nil => cases h
    | cons c rest => exact (hrest c rest rfl rfl).elim
  | case5 after c rest hsplit hc ih =>
    rw [joinDigits.eq_3 _ _ _ hsplit, if_neg hc] at h
    obtain ⟨t', ht', rfl⟩ := Option.map_eq_some_iff.1 h
    rw [ih ht']
    simp [hc]

/-! ## The two readings -/

/-- A numeral without underscores is read in both ways alike, whatever its padding. -/
theorem realOf?_of_padded {s : String} (h : signed? (Text.trimBy isPadding s.toList) = some x) :
    realOf? s = some x ∧ '_' ∉ s.toList := by
  have hmark := isMark_of_signed? h
  obtain ⟨pre, post, hs, hpre, hpost⟩ := trimBy_parts isPadding s.toList
  generalize Text.trimBy isPadding s.toList = t at h hmark hs
  obtain ⟨pre', post', hascii, hpre', hpost'⟩ := toAscii_padded hpre hmark hpost
  have htrim : Text.trimBy Text.isAsciiBlank (pre' ++ t ++ post') = t :=
    trimBy_padded hpre' (fun c hc => (hmark c hc).not_blank) hpost'
  have hplain : '_' ∉ t := fun hc => (hmark _ hc).ne_underscore rfl
  constructor
  · unfold realOf?
    rw [hs, hascii]
    simp only [Option.bind_eq_bind, Option.bind_some, htrim, joinDigits_of_plain t hplain, h]
  · rw [hs]
    intro hc
    rcases List.mem_append.1 hc with hc | hc
    · rcases List.mem_append.1 hc with hc | hc
      · exact absurd (hpre _ hc) (by decide)
      · exact hplain hc
    · exact absurd (hpost _ hc) (by decide)

/-- A numeral with underscores is read without them, if they stand between digits. -/
theorem realOf?_of_joined {s : String} (ht : dropUnderscores s.toList = some t)
    (h : signed? t = some x) :
    realOf? s = if (joinDigits false s.toList).isSome then some x else none := by
  have hfilter : t = s.toList.filter (· ≠ '_') := by
    unfold dropUnderscores at ht
    split at ht
    · cases ht
    · exact (Option.some.inj ht).symm
  -- there is no padding that could be cut off
  have hchar : ∀ c ∈ s.toList, c = '_' ∨ IsMark c := by
    intro c hc
    by_cases hne : c = '_'
    · exact .inl hne
    · refine .inr (isMark_of_signed? h c ?_)
      rw [hfilter]
      exact List.mem_filter.2 ⟨hc, by simpa using hne⟩
  have hascii : toAscii s.toList = some s.toList := by
    refine if_pos (List.all_eq_true.2 fun c hc => decide_eq_true ?_)
    rcases hchar c hc with rfl | hmark
    · decide
    · exact Nat.lt_succ_of_lt hmark.lt
  have htrim : Text.trimBy Text.isAsciiBlank s.toList = s.toList := by
    have hblank : ∀ c ∈ s.toList, Text.isAsciiBlank c = false := by
      intro c hc
      rcases hchar c hc with rfl | hmark
      · rfl
      · exact hmark.not_blank
    have hkeep : Text.trimBy Text.isAsciiBlank ([] ++ s.toList ++ []) = s.toList :=
      trimBy_padded nofun hblank nofun
    simpa using hkeep
  unfold realOf?
  simp only [hascii, Option.bind_eq_bind, Option.bind_some, htrim]
  cases hj : joinDigits false s.toList with
  | none => rfl
  | some t' =>
    rw [joinDigits_eq_some hj, ← hfilter]
    exact h

/-- Text that the check of a request reads as a number is read as that number elsewhere if its
underscores stand between digits; otherwise it is no numeral. -/
theorem realOf?_of_numeral? {s : String} (h : numeral? s = some x) :
    realOf? s = if (joinDigits false s.toList).isSome then some x else none := by
  unfold numeral? at h
  split at h
  · rename_i y hy
    obtain rfl := Option.some.inj h
    obtain ⟨hread, hplain⟩ := realOf?_of_padded hy
    rw [hread, joinDigits_of_plain _ hplain]
    rfl
  · obtain ⟨t, ht, hx⟩ := Option.bind_eq_some_iff.1 h
    exact realOf?_of_joined ht hx

end Kanban.Http
