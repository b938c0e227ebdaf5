import Kanban.Proofs.Entries
import Kanban.Proofs.Json.Numbers
import Kanban.Proofs.Json.Strings

/-!
# Kanban.Proofs.Json.Values — values are read back from JSON text

What is written on many lines is read back as it was, if nothing keeps it from being written. Objects
have to hold every key once, since of entries with one key only the last is read.

* `Value.Keyed` — objects, at any depth, hold every key once.
* `value_of_number` — what is read as a number is taken for nothing else.
* `reads` — a value is read back, whatever follows.
* `parse_pretty` — a text is read back.
-/

namespace Kanban

namespace Value

mutual

/-- Objects hold every key once. -/
def Keyed : Value → Prop
  | .list vs => KeyedItems vs
  | .object es => (es.map (·.1)).Nodup ∧ KeyedEntries es
  | _ => True

/-- Objects in a list hold every key once. -/
def KeyedItems : List Value → Prop
  | [] => True
  | v :: vs => Keyed v ∧ KeyedItems vs

/-- Objects in an object hold every key once. -/
def KeyedEntries : List (String × Value) → Prop
  | [] => True
  | (_, v) :: es => Keyed v ∧ KeyedEntries es

end

end Value

namespace Json

variable {fuel depth d ind n : Nat} {cs rest : List Char} {c : Char} {v : Value}
  {r : Value × List Char}

/-! ## Gaps -/

theorem skip_cons (h : isGap c = false) (cs : List Char) : skip (c :: cs) = c :: cs := by
  simp [skip, h]

/-- New lines are skipped. -/
theorem skip_newline (n : Nat) (cs : List Char) : skip ((newline n).toList ++ cs) = skip cs := by
  have hgap : ∀ c ∈ (newline n).toList, isGap c = true := by
    intro c hc
    unfold newline at hc
    rw [String.toList_append] at hc
    rcases List.mem_append.1 hc with hc | hc
    · obtain rfl : c = '\n' := List.mem_singleton.1 hc
      rfl
    · rw [String.toList_ofList] at hc
      rw [List.eq_of_mem_replicate hc]
      rfl
  exact List.dropWhile_append_of_pos hgap

theorem stops_newline (n : Nat) (cs : List Char) : Stops ((newline n).toList ++ cs) := by
  intro c hc
  have hhead : ((newline n).toList ++ cs).head? = some '\n' := by
    unfold newline
    rw [String.toList_append]
    rfl
  rw [hhead] at hc
  obtain rfl := Option.some.inj hc
  decide

theorem stops_comma (cs : List Char) : Stops (',' :: cs) := by
  intro c hc
  obtain rfl := Option.some.inj hc
  decide

theorem stops_nil : Stops [] := by
  intro c hc
  cases hc

/-- A value starts neither with a gap nor with a bracket that closes. -/
theorem head_of_value (h : value depth fuel cs = .ok r) :
    ∃ c rest, cs = c :: rest ∧ isGap c = false ∧ c ≠ ']' ∧ c ≠ '\x7d' := by
  cases fuel with
  | zero => cases h
  | succ fuel =>
    cases cs with
    | nil => cases h
    | cons c rest =>
      refine ⟨c, rest, rfl, ?_, ?_, ?_⟩
      · by_contra hgap
        rw [Bool.not_eq_false] at hgap
        simp only [isGap, Bool.or_eq_true, beq_iff_eq] at hgap
        rcases hgap with ((rfl | rfl) | rfl) | rfl
        · cases h
        · cases h
        · cases h
        · cases h
      · rintro rfl
        cases h
      · rintro rfl
        cases h

/-- So nothing is skipped in front of a value. -/
theorem skip_of_value (h : value depth fuel cs = .ok r) : skip cs = cs := by
  obtain ⟨c, rest, rfl, hc, -, -⟩ := head_of_value h
  exact skip_cons hc rest

/-! ## Values that hold no other -/

/-- What begins as a number is taken for nothing else, also if it has too many digits. -/
theorem value_eq_number (h : number cs ≠ .error .malformed) :
    value depth (fuel + 1) cs = number cs := by
  have hword : word? cs = none := by
    by_contra hsome
    obtain ⟨x, hx⟩ := Option.ne_none_iff_exists'.1 hsome
    unfold word? at hx
    obtain ⟨⟨w, v⟩, hmem, hpre⟩ := List.exists_of_findSome?_eq_some hx
    dsimp only at hpre
    split at hpre
    · rename_i hw
      obtain ⟨t, rfl⟩ := List.isPrefixOf_iff_prefix.1 hw
      -- no word starts with a digit, also after a sign
      simp only [words, List.mem_cons, Prod.mk.injEq, List.not_mem_nil, or_false] at hmem
      rcases hmem with ⟨rfl, -⟩ | ⟨rfl, -⟩ | ⟨rfl, -⟩ | ⟨rfl, -⟩ | ⟨rfl, -⟩ | ⟨rfl, -⟩
      · exact h rfl
      · exact h rfl
      · exact h rfl
      · exact h rfl
      · exact h rfl
      · exact h rfl
    · cases hpre
  cases cs with
  | nil => exact absurd rfl h
  | cons c cs =>
    have hq : c ≠ '"' := by
      rintro rfl
      exact h rfl
    have hl : c ≠ '[' := by
      rintro rfl
      exact h rfl
    have ho : c ≠ '\x7b' := by
      rintro rfl
      exact h rfl
    unfold value
    split
    · rename_i heq
      exact absurd (List.cons.inj heq).1 hq
    · rename_i heq
      exact absurd (List.cons.inj heq).1 hl
    · rename_i heq
      exact absurd (List.cons.inj heq).1 ho
    · rw [hword]

/-- What is read as a number is a value. -/
theorem value_of_number (h : number cs = .ok r) : value depth (fuel + 1) cs = .ok r := by
  rw [value_eq_number (by rw [h]; exact nofun), h]

/-- Floats are read back, also those that are no numbers. -/
theorem value_real (x : Float) (hr : Stops rest) :
    value depth (fuel + 1) ((Decimal.render .file x).toList ++ rest) = .ok (.real x, rest) := by
  -- What is no number is written as a word, and the word is read as the very value.
  have hword {w : String} {y : Float} (hw : Decimal.render .file x = w)
      (hy : (Decimal.read y).unpacked = (Decimal.read x).unpacked)
      (hv : value depth (fuel + 1) (w.toList ++ rest) = .ok (.real y, rest)) :
      value depth (fuel + 1) ((Decimal.render .file x).toList ++ rest) = .ok (.real x, rest) := by
    rw [hw, ← Decimal.eq_of_unpacked hy]
    exact hv
  cases hx : Decimal.read x with
  | undefined =>
    refine hword (w := "NaN") (y := 0.0 / 0.0) (by simp [Decimal.render, hx, Decimal.Layout.file])
      ?_ rfl
    have hread : Decimal.read (0.0 / 0.0) = .undefined := by decide +kernel
    rw [hread, hx]
  | infinite negative =>
    cases negative with
    | false =>
      refine hword (w := "Infinity") (y := 1.0 / 0.0)
        (by simp [Decimal.render, hx, Decimal.Layout.file]) ?_ rfl
      have hread : Decimal.read (1.0 / 0.0) = .infinite false := by decide +kernel
      rw [hread, hx]
    | true =>
      refine hword (w := "-Infinity") (y := -1.0 / 0.0)
        (by simp [Decimal.render, hx, Decimal.Layout.file]) ?_ rfl
      have hread : Decimal.read (-1.0 / 0.0) = .infinite true := by decide +kernel
      rw [hread, hx]
  | finite b => exact value_of_number (number_render hx .file hr)

theorem toList_quoted (s : String) :
    (quoted s).toList = '"' :: (s.toList.flatMap escaped ++ ['"']) := by
  unfold quoted
  rw [String.toList_ofList, List.cons_append]

/-- The text of a string is read back, up to what follows. -/
theorem string_toList (s : String) (rest : List Char) :
    string (s.toList.flatMap escaped ++ '"' :: rest).length
      (s.toList.flatMap escaped ++ '"' :: rest) = some (s.toList, rest) := by
  refine string_quoted s.toList rest ?_
  have hle := length_le_flatMap s.toList
  rw [List.length_append, List.length_cons]
  omega

theorem value_text (s : String) (rest : List Char) :
    value depth (fuel + 1) ((quoted s).toList ++ rest) = .ok (.text s, rest) := by
  have hstring := string_toList s rest
  rw [toList_quoted, List.cons_append, List.append_assoc, List.singleton_append]
  simp only [value, hstring, String.ofList_toList]

/-! ## Values that hold others -/

/-- Whether a value holds no other. -/
def isScalar : Value → Bool
  | .list (_ :: _) | .object (_ :: _) => false
  | _ => true

theorem prettyAt_scalar (h : isScalar v = true) (ind : Nat) : prettyAt ind v = scalar v := by
  unfold isScalar at h
  split at h
  · cases h
  · cases h
  · rename_i hl ho
    unfold prettyAt
    split
    · rename_i v vs
      exact absurd rfl (hl v vs)
    · rename_i k v es
      exact absurd rfl (ho (k, v) es)
    · rfl

/-- What follows an item of an array. -/
def afterItem (ind n : Nat) (vs : List Value) (rest : List Char) : List Char :=
  (prettyItems ind vs).toList ++ ((newline n).toList ++ ']' :: rest)

/-- What follows an entry of an object. -/
def afterEntry (ind n : Nat) (es : List (String × Value)) (rest : List Char) : List Char :=
  (prettyEntries ind es).toList ++ ((newline n).toList ++ '\x7d' :: rest)

/-- The text of an entry, and what follows it. -/
def entryText (ind : Nat) (k : String) (v : Value) (rest : List Char) : List Char :=
  (quoted k).toList ++ ':' :: ' ' :: ((prettyAt ind v).toList ++ rest)

theorem afterItem_nil (ind n : Nat) (rest : List Char) :
    afterItem ind n [] rest = (newline n).toList ++ ']' :: rest := by
  simp [afterItem, prettyItems]

theorem afterItem_cons (ind n : Nat) (v : Value) (vs : List Value) (rest : List Char) :
    afterItem ind n (v :: vs) rest =
      ',' :: ((newline ind).toList ++ ((prettyAt ind v).toList ++ afterItem ind n vs rest)) := by
  simp [afterItem, prettyItems]

theorem afterEntry_nil (ind n : Nat) (rest : List Char) :
    afterEntry ind n [] rest = (newline n).toList ++ '\x7d' :: rest := by
  simp [afterEntry, prettyEntries]

theorem afterEntry_cons (ind n : Nat) (k : String) (v : Value) (es : List (String × Value))
    (rest : List Char) : afterEntry ind n ((k, v) :: es) rest =
      ',' :: ((newline ind).toList ++ entryText ind k v (afterEntry ind n es rest)) := by
  simp [afterEntry, prettyEntries, entryText]

theorem toList_list (ind : Nat) (v : Value) (vs : List Value) (rest : List Char) :
    (prettyAt ind (.list (v :: vs))).toList ++ rest =
      '[' :: ((newline (ind + 1)).toList ++
        ((prettyAt (ind + 1) v).toList ++ afterItem (ind + 1) ind vs rest)) := by
  simp [prettyAt, afterItem]

theorem toList_object (ind : Nat) (k : String) (v : Value) (es : List (String × Value))
    (rest : List Char) : (prettyAt ind (.object ((k, v) :: es))).toList ++ rest =
      '\x7b' :: ((newline (ind + 1)).toList ++
        entryText (ind + 1) k v (afterEntry (ind + 1) ind es rest)) := by
  simp [prettyAt, afterEntry, entryText]

theorem stops_afterItem (ind n : Nat) (vs : List Value) (rest : List Char) :
    Stops (afterItem ind n vs rest) := by
  cases vs with
  | nil =>
    rw [afterItem_nil]
    exact stops_newline n _
  | cons v vs =>
    rw [afterItem_cons]
    exact stops_comma _

theorem stops_afterEntry (ind n : Nat) (es : List (String × Value)) (rest : List Char) :
    Stops (afterEntry ind n es rest) := by
  cases es with
  | nil =>
    rw [afterEntry_nil]
    exact stops_newline n _
  | cons e es =>
    obtain ⟨k, v⟩ := e
    rw [afterEntry_cons]
    exact stops_comma _

theorem length_newline (n : Nat) : 0 < (newline n).toList.length := by
  unfold newline
  rw [String.toList_append, List.length_append]
  exact Nat.lt_of_lt_of_le Nat.one_pos (Nat.le_add_right 1 _)

/-- The last item of an array. -/
theorem items_last (h : value depth fuel cs = .ok (v, rest)) {more : List Char}
    (hr : skip rest = ']' :: more) : items depth (fuel + 1) cs = .ok ([v], more) := by
  simp only [items, h, hr]

/-- An item of an array, and others after it. -/
theorem items_next (h : value depth fuel cs = .ok (v, rest)) {more end_ : List Char}
    (hr : skip rest = ',' :: more) {vs : List Value}
    (hm : items depth fuel (skip more) = .ok (vs, end_)) :
    items depth (fuel + 1) cs = .ok (v :: vs, end_) := by
  simp only [items, h, hr, hm]
  rfl

section Entry

variable {sofar : Entries String Value} {k : String} {after more : List Char}

/-- The last entry of an object. -/
theorem entries_last (h : value depth fuel ((prettyAt ind v).toList ++ after) = .ok (v, after))
    (hr : skip after = '\x7d' :: more) :
    entries depth (fuel + 1) sofar (entryText ind k v after) =
      .ok (Entries.put k v sofar, more) := by
  have hstring := string_toList k (':' :: ' ' :: ((prettyAt ind v).toList ++ after))
  have hcolon (cs : List Char) : skip (':' :: cs) = ':' :: cs := skip_cons rfl cs
  have hblank (cs : List Char) : skip (' ' :: cs) = skip cs := rfl
  unfold entryText
  rw [toList_quoted, List.cons_append, List.append_assoc, List.singleton_append]
  simp only [entries, hstring, hcolon, hblank, skip_of_value h, h, hr, String.ofList_toList]

/-- An entry of an object, and others after it. -/
theorem entries_next (h : value depth fuel ((prettyAt ind v).toList ++ after) = .ok (v, after))
    (hr : skip after = ',' :: more) :
    entries depth (fuel + 1) sofar (entryText ind k v after) =
      entries depth fuel (Entries.put k v sofar) (skip more) := by
  have hstring := string_toList k (':' :: ' ' :: ((prettyAt ind v).toList ++ after))
  have hcolon (cs : List Char) : skip (':' :: cs) = ':' :: cs := skip_cons rfl cs
  have hblank (cs : List Char) : skip (' ' :: cs) = skip cs := rfl
  unfold entryText
  rw [toList_quoted, List.cons_append, List.append_assoc, List.singleton_append]
  rw [entries]
  simp only [hstring, hcolon, hblank, skip_of_value h, h, hr, String.ofList_toList]

end Entry

/-- The text of an entry starts with a quote. -/
theorem entryText_cons (ind : Nat) (k : String) (v : Value) (rest : List Char) :
    ∃ cs, entryText ind k v rest = '"' :: cs := by
  unfold entryText
  rw [toList_quoted]
  exact ⟨_, rfl⟩

theorem length_le_entryText (ind : Nat) (k : String) (v : Value) (rest : List Char) :
    ((prettyAt ind v).toList ++ rest).length ≤ (entryText ind k v rest).length := by
  simp only [entryText, List.length_append, List.length_cons]
  omega

theorem skip_entryText (ind : Nat) (k : String) (v : Value) (rest : List Char) :
    skip (entryText ind k v rest) = entryText ind k v rest := by
  obtain ⟨cs, hcs⟩ := entryText_cons ind k v rest
  rw [hcs, skip_cons rfl]

/-- A value that holds no other is read back. -/
theorem value_scalar (hs : isScalar v = true) (hp : problem? d v = none) (hd : d ≤ depth)
    (hr : Stops rest) :
    value depth (fuel + 1) ((prettyAt ind v).toList ++ rest) = .ok (v, rest) := by
  rw [prettyAt_scalar hs]
  cases v with
  | null => rfl
  | bool b => cases b <;> rfl
  | whole n =>
    unfold problem? at hp
    split at hp
    · cases hp
    · rename_i hn
      exact value_of_number (number_whole (Nat.not_lt.1 hn) hr)
  | real x => exact value_real x hr
  | text s => exact value_text s rest
  | list vs =>
    cases vs with
    | nil =>
      have hdepth : depth ≠ 0 := by
        rintro rfl
        obtain rfl := Nat.le_zero.1 hd
        cases hp
      have htext : (scalar (.list [])).toList ++ rest = '[' :: ']' :: rest := rfl
      have hskip : skip (']' :: rest) = ']' :: rest := skip_cons rfl rest
      rw [htext]
      simp only [value, hdepth, if_false, hskip]
    | cons v vs => cases hs
  | object es =>
    cases es with
    | nil =>
      have hdepth : depth ≠ 0 := by
        rintro rfl
        obtain rfl := Nat.le_zero.1 hd
        cases hp
      have htext : (scalar (.object [])).toList ++ rest = '\x7b' :: '\x7d' :: rest := rfl
      have hskip : skip ('\x7d' :: rest) = '\x7d' :: rest := skip_cons rfl rest
      rw [htext]
      simp only [value, hdepth, if_false, hskip]
    | cons e es => cases hs

/-- Arrays that can be written are not at the bottom. -/
theorem problem?_list {vs : List Value} (h : problem? d (.list vs) = none) :
    d ≠ 0 ∧ problemItems? (d - 1) vs = none := by
  unfold problem? at h
  split at h
  · cases h
  · rename_i hd
    exact ⟨hd, h⟩

/-- Objects that can be written are not at the bottom. -/
theorem problem?_object {es : List (String × Value)} (h : problem? d (.object es) = none) :
    d ≠ 0 ∧ problemEntries? (d - 1) es = none := by
  unfold problem? at h
  split at h
  · cases h
  · rename_i hd
    exact ⟨hd, h⟩

/-- A value is read back, whatever follows. -/
def Reads (v : Value) : Prop :=
  ∀ {d : Nat} (ind depth fuel : Nat) (rest : List Char), v.Keyed → problem? d v = none → d ≤ depth →
    ((prettyAt ind v).toList ++ rest).length ≤ fuel → Stops rest →
    value depth (fuel + 1) ((prettyAt ind v).toList ++ rest) = .ok (v, rest)

/-- The items of an array are read back. -/
def ReadsItems (v : Value) (vs : List Value) : Prop :=
  ∀ {d : Nat} (ind n depth fuel : Nat) (rest : List Char), v.Keyed → Value.KeyedItems vs →
    problem? d v = none → problemItems? d vs = none → d ≤ depth →
    ((prettyAt ind v).toList ++ afterItem ind n vs rest).length ≤ fuel →
    items depth (fuel + 2) ((prettyAt ind v).toList ++ afterItem ind n vs rest) =
      .ok (v :: vs, rest)

/-- The entries of an object are read back, and put after those that were read before. -/
def ReadsEntries (k : String) (v : Value) (es : List (String × Value)) : Prop :=
  ∀ {d : Nat} (ind n depth fuel : Nat) (sofar : Entries String Value) (rest : List Char), v.Keyed →
    Value.KeyedEntries es → problem? d v = none → problemEntries? d es = none → d ≤ depth →
    (Entries.keys sofar ++ k :: es.map (·.1)).Nodup →
    (entryText ind k v (afterEntry ind n es rest)).length ≤ fuel →
    entries depth (fuel + 2) sofar (entryText ind k v (afterEntry ind n es rest)) =
      .ok (sofar ++ (k, v) :: es, rest)

variable {w : Value} {k l : String} {vs ws : List Value} {es : List (String × Value)}

theorem reads_scalar (hs : isScalar v = true) : Reads v :=
  fun _ _ _ _ _ hp hd _ hr => value_scalar hs hp hd hr

theorem readsItems_last (h : Reads v) : ReadsItems v [] := by
  intro d ind n depth fuel rest hk _ hp _ hd hf
  have hvalue := h ind depth fuel (afterItem ind n [] rest) hk hp hd hf (stops_afterItem _ _ _ _)
  refine items_last hvalue ?_
  rw [afterItem_nil, skip_newline, skip_cons rfl]

theorem readsItems_next (h : Reads v) (hw : Reads w) (hws : ReadsItems w ws) :
    ReadsItems v (w :: ws) := by
  intro d ind n depth fuel rest hk hks hp hps hd hf
  obtain ⟨hpw, hpws⟩ := Option.or_eq_none_iff.1 hps
  have hnext := hw ind depth _ (afterItem ind n ws rest) hks.1 hpw hd (Nat.le_refl _)
    (stops_afterItem _ _ _ _)
  have hvalue := h ind depth fuel _ hk hp hd hf (stops_afterItem ind n (w :: ws) rest)
  rw [afterItem_cons] at hf
  simp only [List.length_cons, List.length_append] at hf
  obtain ⟨fuel, rfl⟩ := Nat.exists_eq_add_of_le' (show 1 ≤ fuel by omega)
  have hskip : skip (afterItem ind n (w :: ws) rest) = ',' :: ((newline ind).toList ++
      ((prettyAt ind w).toList ++ afterItem ind n ws rest)) := by
    rw [afterItem_cons, skip_cons rfl]
  refine items_next hvalue hskip ?_
  rw [skip_newline, skip_of_value hnext]
  exact hws ind n depth fuel rest hks.1 hks.2 hpw hpws hd (by rw [List.length_append]; omega)

theorem reads_list (h : Reads v) (hvs : ReadsItems v vs) : Reads (.list (v :: vs)) := by
  intro d ind depth fuel rest hk hp hd hf _
  obtain ⟨hbottom, hps⟩ := problem?_list hp
  obtain ⟨hpv, hpvs⟩ := Option.or_eq_none_iff.1 hps
  have hnl := length_newline (ind + 1)
  have hvalue := h (ind + 1) _ _ (afterItem (ind + 1) ind vs rest) hk.1 hpv
    (Nat.le_refl _) (Nat.le_refl _) (stops_afterItem _ _ _ _)
  obtain ⟨c, cs, hcons, hgap, hclose, -⟩ := head_of_value hvalue
  have hskip : skip ((newline (ind + 1)).toList ++
      ((prettyAt (ind + 1) v).toList ++ afterItem (ind + 1) ind vs rest)) = c :: cs := by
    rw [skip_newline, hcons, skip_cons hgap]
  rw [toList_list] at hf ⊢
  simp only [List.length_cons, List.length_append] at hf
  -- the bracket and the new line leave fuel enough
  obtain ⟨fuel, rfl⟩ := Nat.exists_eq_add_of_le' (show 2 ≤ fuel by omega)
  have hitems := hvs (ind + 1) ind (depth - 1) fuel rest hk.1 hk.2 hpv hpvs (by omega)
    (by rw [List.length_append]; omega)
  have hdepth : depth ≠ 0 := by omega
  rw [hcons] at hitems
  simp [value, hdepth, hskip, hclose, hitems, Except.map]

theorem readsEntries_last (h : Reads v) : ReadsEntries k v [] := by
  intro d ind n depth fuel sofar rest hk _ hp _ hd hnodup hf
  have hvalue := h ind depth fuel (afterEntry ind n [] rest) hk hp hd
    ((length_le_entryText ..).trans hf) (stops_afterEntry _ _ _ _)
  have hnew : k ∉ Entries.keys sofar := fun hmem =>
    (List.nodup_append.1 hnodup).2.2 k hmem k List.mem_cons_self rfl
  have hskip : skip (afterEntry ind n [] rest) = '\x7d' :: rest := by
    rw [afterEntry_nil, skip_newline, skip_cons rfl]
  rw [entries_last hvalue hskip, Entries.put_of_not_mem hnew]

theorem readsEntries_next (h : Reads v) (hes : ReadsEntries l w es) :
    ReadsEntries k v ((l, w) :: es) := by
  intro d ind n depth fuel sofar rest hk hks hp hps hd hnodup hf
  obtain ⟨hpw, hpes⟩ := Option.or_eq_none_iff.1 hps
  have hlen := (length_le_entryText ind k v (afterEntry ind n ((l, w) :: es) rest)).trans hf
  have hvalue := h ind depth fuel (afterEntry ind n ((l, w) :: es) rest) hk hp hd hlen
    (stops_afterEntry _ _ _ _)
  -- A new key goes to the end, so the entries are read in the order of writing.
  have hnew : k ∉ Entries.keys sofar := fun hmem =>
    (List.nodup_append.1 hnodup).2.2 k hmem k List.mem_cons_self rfl
  have hskip : skip (afterEntry ind n ((l, w) :: es) rest) = ',' :: ((newline ind).toList ++
      entryText ind l w (afterEntry ind n es rest)) := by
    rw [afterEntry_cons, skip_cons rfl]
  rw [afterEntry_cons] at hlen
  simp only [List.length_cons, List.length_append] at hlen
  obtain ⟨fuel, rfl⟩ := Nat.exists_eq_add_of_le' (show 1 ≤ fuel by omega)
  have hmore := hes ind n depth fuel (sofar ++ [(k, v)]) rest hks.1 hks.2 hpw hpes hd
    (by simpa [Entries.keys] using hnodup) (by omega)
  rw [entries_next hvalue hskip, Entries.put_of_not_mem hnew, skip_newline, skip_entryText, hmore]
  simp

theorem reads_object (hes : ReadsEntries k v es) : Reads (.object ((k, v) :: es)) := by
  intro d ind depth fuel rest hk hp hd hf _
  obtain ⟨hbottom, hps⟩ := problem?_object hp
  obtain ⟨hpv, hpes⟩ := Option.or_eq_none_iff.1 hps
  have hnl := length_newline (ind + 1)
  -- An object is a level above its values; it takes one fuel itself and one for its first entry.
  have hdepth : depth ≠ 0 := by omega
  rw [toList_object] at hf ⊢
  simp only [List.length_cons, List.length_append] at hf
  obtain ⟨fuel, rfl⟩ := Nat.exists_eq_add_of_le' (show 2 ≤ fuel by omega)
  have hentries := hes (ind + 1) ind (depth - 1) fuel [] rest hk.2.1 hk.2.2 hpv hpes (by omega)
    (by simpa using hk.1) (by omega)
  obtain ⟨cs, hcs⟩ := entryText_cons (ind + 1) k v (afterEntry (ind + 1) ind es rest)
  have hskip : skip ((newline (ind + 1)).toList ++ '"' :: cs) = '"' :: cs := by
    rw [skip_newline, skip_cons rfl]
  rw [hcs] at hentries ⊢
  simp [value, hdepth, hskip, hentries, Except.map]

mutual

/-- Every value is read back, whatever follows. -/
theorem reads : ∀ v : Value, Reads v
  | .null => reads_scalar rfl
  | .bool _ => reads_scalar rfl
  | .whole _ => reads_scalar rfl
  | .real _ => reads_scalar rfl
  | .text _ => reads_scalar rfl
  | .list [] => reads_scalar rfl
  | .list (v :: vs) => reads_list (reads v) (readsItems v vs)
  | .object [] => reads_scalar rfl
  | .object ((k, v) :: es) => reads_object (readsEntries k v es)
termination_by v => sizeOf v

/-- The items of every array are read back. -/
theorem readsItems : ∀ (v : Value) (vs : List Value), ReadsItems v vs
  | v, [] => readsItems_last (reads v)
  | v, w :: ws => readsItems_next (reads v) (reads w) (readsItems w ws)
termination_by v vs => sizeOf (v :: vs)

/-- The entries of every object are read back. -/
theorem readsEntries : ∀ (k : String) (v : Value) (es : List (String × Value)), ReadsEntries k v es
  | _, v, [] => readsEntries_last (reads v)
  | _, v, (l, w) :: es => readsEntries_next (reads v) (readsEntries l w es)
termination_by k v es => sizeOf ((k, v) :: es)

end

/-- All that the two limits on nesting have to do with each other: what is written can be read. -/
theorem maxWritten_le_maxDepth : maxWritten ≤ maxDepth := by decide

/-- A text is read back. -/
theorem parse_pretty (hk : v.Keyed) (hp : problem? maxWritten v = none) :
    parse (pretty v) = .ok v := by
  have hvalue := reads v 0 maxDepth _ [] hk hp maxWritten_le_maxDepth (Nat.le_refl _) stops_nil
  rw [List.append_nil] at hvalue
  have hskip := skip_of_value hvalue
  unfold parse pretty
  rw [hskip]
  simp only [hvalue]
  rfl

/-- A text that is a whole number of too many digits is not read. -/
theorem parse_overlong {front : List Char} (hf : IsFront front)
    (hlong : Decimal.Numeral.maxDigits < front.length) :
    parse (String.ofList front) = .error .longNumeral := by
  have hnumber : number front = .error .longNumeral := by
    simpa using number_overlong hf hlong stops_nil
  have hskip : skip front = front := by
    obtain ⟨c, ds, rfl, hc⟩ := hf.exists_cons
    refine skip_cons ?_ ds
    -- a gap is no digit
    by_contra hgap
    simp only [isGap, Bool.not_eq_false, Bool.or_eq_true, beq_iff_eq] at hgap
    rcases hgap with ((rfl | rfl) | rfl) | rfl <;> cases hc
  unfold parse
  rw [String.toList_ofList, hskip]
  dsimp only
  rw [value_eq_number (by rw [hnumber]; exact nofun), hnumber]

end Json

end Kanban
