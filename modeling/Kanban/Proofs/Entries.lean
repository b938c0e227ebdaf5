import Kanban.Entries
import Mathlib.Data.List.Nodup
import Mathlib.Data.List.Perm.Basic

/-!
# Kanban.Proofs.Entries — maps with distinct keys

A map whose keys are distinct is determined by its look-ups: an entry is in the list iff it is
what its key reads. Every operation keeps keys distinct.

* `mem_iff_get?` — an entry is there iff its key reads it.
* `get?_erase` — look-ups after an entry is erased.
* `perm_erase`, `put_perm` — a map is one entry and the rest.
* `ofList_of_nodup` — pairs with distinct keys are the map that they build.
-/

namespace Kanban

namespace Entries

variable {κ α : Type}

@[simp] theorem keys_nil : keys ([] : Entries κ α) = [] := rfl

@[simp] theorem keys_cons (e : κ × α) (m : Entries κ α) : keys (e :: m) = e.1 :: keys m := rfl

@[simp] theorem values_cons (e : κ × α) (m : Entries κ α) : values (e :: m) = e.2 :: values m := rfl

/-- A map with its values changed has its keys. -/
theorem keys_map {β : Type} (f : κ → α → β) (m : Entries κ α) :
    keys (m.map fun e => (e.1, f e.1 e.2)) = keys m := by
  simp [keys]

theorem mem_keys_of_mem {e : κ × α} {m : Entries κ α} (h : e ∈ m) : e.1 ∈ keys m :=
  List.mem_map_of_mem h

variable [DecidableEq κ]

theorem get?_eq_none_iff {k : κ} {m : Entries κ α} : get? k m = none ↔ k ∉ keys m := by
  induction m with
  | nil => simp
  | cons e rest ih =>
    obtain ⟨k', a⟩ := e
    by_cases h : k' = k
    · simp [get?, h]
    · simp [get?, h, ih, Ne.symm h]

/-- With distinct keys an entry is there iff its key reads it. -/
theorem mem_iff_get? {m : Entries κ α} (hm : (keys m).Nodup) {k : κ} {a : α} :
    (k, a) ∈ m ↔ get? k m = some a := by
  refine ⟨fun h => ?_, mem_of_get?⟩
  induction m with
  | nil => simp at h
  | cons e rest ih =>
    obtain ⟨k', a'⟩ := e
    rw [keys_cons, List.nodup_cons] at hm
    rcases List.mem_cons.1 h with h | h
    · obtain ⟨rfl, rfl⟩ := Prod.mk.inj h
      simp [get?]
    · -- the entry is in the rest, so the first key is another one
      have hmem := mem_keys_of_mem h
      have hk : k' ≠ k := fun hk => hm.1 (hk ▸ hmem)
      simp [get?, hk, ih hm.2 h]

theorem mem_values_iff {m : Entries κ α} (hm : (keys m).Nodup) {a : α} :
    a ∈ values m ↔ ∃ k, get? k m = some a := by
  simp only [values, List.mem_map, Prod.exists, exists_eq_right]
  exact exists_congr fun k => mem_iff_get? hm

theorem mem_values_of_get? {k : κ} {a : α} {m : Entries κ α} (h : get? k m = some a) :
    a ∈ values m := List.mem_map.2 ⟨_, mem_of_get? h, rfl⟩

@[simp] theorem has_eq_true_iff {k : κ} {m : Entries κ α} : has k m = true ↔ k ∈ keys m := by
  rw [has, Option.isSome_iff_ne_none, ne_eq, get?_eq_none_iff, not_not]

/-! ## Erasing -/

@[simp] theorem erase_nil (k : κ) : erase k ([] : Entries κ α) = [] := rfl

theorem erase_cons_self (k : κ) (a : α) (m : Entries κ α) : erase k ((k, a) :: m) = erase k m := by
  simp [erase]

theorem erase_cons_of_ne {k k' : κ} (h : k' ≠ k) (a : α) (m : Entries κ α) :
    erase k ((k', a) :: m) = (k', a) :: erase k m := by
  simp [erase, h]

theorem get?_erase (k k' : κ) (m : Entries κ α) :
    get? k' (erase k m) = if k' = k then none else get? k' m := by
  induction m with
  | nil => simp
  | cons e rest ih =>
    obtain ⟨k'', a⟩ := e
    by_cases hk : k'' = k
    · -- the first entry goes, and the rest decides
      subst hk
      rw [erase_cons_self, ih]
      by_cases h : k' = k''
      · simp [h]
      · simp [h, get?, Ne.symm h]
    · rw [erase_cons_of_ne hk]
      by_cases h : k'' = k'
      · subst h; simp [get?, hk]
      · simp [get?, h, ih]

theorem keys_erase_sublist (k : κ) (m : Entries κ α) : (keys (erase k m)).Sublist (keys m) :=
  List.filter_sublist.map _

theorem nodup_erase {m : Entries κ α} (hm : (keys m).Nodup) (k : κ) : (keys (erase k m)).Nodup :=
  hm.sublist (keys_erase_sublist k m)

theorem erase_of_not_mem {k : κ} {m : Entries κ α} (h : k ∉ keys m) : erase k m = m := by
  refine List.filter_eq_self.2 fun e he => ?_
  have hk : e.1 ≠ k := by
    rintro rfl
    exact h (mem_keys_of_mem he)
  simpa using hk

/-- A map is the entry of one key, if it has one, and the entries of all other keys. -/
theorem perm_erase {k : κ} {a : α} {m : Entries κ α} (hm : (keys m).Nodup)
    (h : get? k m = some a) : m.Perm ((k, a) :: erase k m) := by
  induction m with
  | nil => simp at h
  | cons e rest ih =>
    obtain ⟨k', a'⟩ := e
    rw [keys_cons, List.nodup_cons] at hm
    by_cases hk : k' = k
    · -- the keys are distinct: erasing changes nothing in the rest
      subst hk
      simp only [get?, if_true, Option.some.injEq] at h
      rw [erase_cons_self, erase_of_not_mem hm.1, h]
    · -- the entry is further on, and one swap brings it to the front
      simp only [get?, hk, if_false] at h
      rw [erase_cons_of_ne hk]
      exact ((ih hm.2 h).cons _).trans (List.Perm.swap _ _ _)

/-! ## Putting -/

theorem mem_keys_put {k k' : κ} {a : α} {m : Entries κ α} :
    k' ∈ keys (put k a m) ↔ k' = k ∨ k' ∈ keys m := by
  induction m with
  | nil => simp [put]
  | cons e rest ih =>
    obtain ⟨k'', a''⟩ := e
    by_cases h : k'' = k
    · simp [put, h]
    · simp only [put, h, if_false, keys_cons, List.mem_cons, ih]
      tauto

theorem nodup_put {m : Entries κ α} (hm : (keys m).Nodup) (k : κ) (a : α) :
    (keys (put k a m)).Nodup := by
  induction m with
  | nil => simp [put]
  | cons e rest ih =>
    obtain ⟨k', a'⟩ := e
    rw [keys_cons, List.nodup_cons] at hm
    by_cases h : k' = k
    · simpa [put, h] using ⟨h ▸ hm.1, hm.2⟩
    · rw [put, if_neg h, keys_cons, List.nodup_cons, mem_keys_put, not_or]
      exact ⟨⟨h, hm.1⟩, ih hm.2⟩

/-- A put brings in nothing but its value. -/
theorem mem_of_mem_put {k : κ} {a : α} {m : Entries κ α} {e : κ × α} (h : e ∈ put k a m) :
    e ∈ m ∨ e.2 = a := by
  induction m with
  | nil => exact .inr (by rw [List.mem_singleton.1 h])
  | cons e' rest ih =>
    unfold put at h
    split at h
    · rcases List.mem_cons.1 h with rfl | h
      · exact .inr rfl
      · exact .inl (List.mem_cons_of_mem _ h)
    · rcases List.mem_cons.1 h with rfl | h
      · exact .inl List.mem_cons_self
      · exact (ih h).imp_left (List.mem_cons_of_mem _)

theorem mem_values_of_put {k : κ} {a b : α} {m : Entries κ α} (h : b ∈ values (put k a m)) :
    b ∈ values m ∨ b = a := by
  obtain ⟨e, he, rfl⟩ := List.mem_map.1 h
  exact (mem_of_mem_put he).imp_left fun hm => List.mem_map_of_mem hm

/-- What a put leaves beside its own entry. -/
theorem erase_put (k : κ) (a : α) (m : Entries κ α) : erase k (put k a m) = erase k m := by
  induction m with
  | nil => simp [put, erase]
  | cons e rest ih =>
    obtain ⟨k', a'⟩ := e
    by_cases h : k' = k
    · subst h
      simp only [put, if_true]
      rw [erase_cons_self, erase_cons_self]
    · simp only [put, h, if_false]
      rw [erase_cons_of_ne h, erase_cons_of_ne h, ih]

/-- Putting what is there changes nothing. -/
theorem put_of_get? {k : κ} {a : α} {m : Entries κ α} (h : get? k m = some a) : put k a m = m := by
  induction m with
  | nil => simp at h
  | cons e rest ih =>
    obtain ⟨k', a'⟩ := e
    by_cases hk : k' = k
    · obtain rfl : a' = a := by simpa [get?, hk] using h
      simp [put, hk]
    · have hrest : get? k rest = some a := by simpa [get?, hk] using h
      simp [put, hk, ih hrest]

/-- Of two puts under one key the later one counts. -/
theorem put_put (k : κ) (a b : α) (m : Entries κ α) : put k a (put k b m) = put k a m := by
  induction m with
  | nil => simp [put]
  | cons e rest ih =>
    obtain ⟨k', a'⟩ := e
    by_cases h : k' = k
    · simp [put, h]
    · simp [put, h, ih]

theorem put_perm {m : Entries κ α} (hm : (keys m).Nodup) (k : κ) (a : α) :
    (put k a m).Perm ((k, a) :: erase k m) := by
  -- after the put the key is there, and what is beside it is as before
  have h := perm_erase (nodup_put hm k a) (get?_put_self k a m)
  rwa [erase_put] at h

theorem mem_put {m : Entries κ α} (hm : (keys m).Nodup) {k : κ} {a : α} {e : κ × α} :
    e ∈ put k a m ↔ e = (k, a) ∨ (e ∈ m ∧ e.1 ≠ k) := by
  rw [(put_perm hm k a).mem_iff, List.mem_cons]
  simp [erase]

/-! ## Ensuring -/

theorem nodup_ensure {m : Entries κ α} (hm : (keys m).Nodup) (k : κ) (a : α) :
    (keys (ensure k a m)).Nodup := by
  unfold ensure
  split
  · exact hm
  · exact nodup_put hm k a

/-! ## Maps from lists of pairs -/

theorem nodup_foldl_put (ps : List (κ × α)) {m : Entries κ α} (hm : (keys m).Nodup) :
    (keys (ps.foldl (fun m p => put p.1 p.2 m) m)).Nodup := by
  induction ps generalizing m with
  | nil => exact hm
  | cons p ps ih => exact ih (nodup_put hm p.1 p.2)

theorem nodup_ofList (ps : List (κ × α)) : (keys (ofList ps)).Nodup :=
  nodup_foldl_put ps List.nodup_nil

theorem put_of_not_mem {k : κ} {m : Entries κ α} (h : k ∉ keys m) (a : α) :
    put k a m = m ++ [(k, a)] := by
  induction m with
  | nil => rfl
  | cons e rest ih =>
    obtain ⟨k', a'⟩ := e
    simp only [keys_cons, List.mem_cons, not_or] at h
    simp [put, Ne.symm h.1, ih h.2]

theorem foldl_put_of_nodup (ps : List (κ × α)) {m : Entries κ α}
    (h : (keys m ++ ps.map (·.1)).Nodup) : ps.foldl (fun m p => put p.1 p.2 m) m = m ++ ps := by
  induction ps generalizing m with
  | nil => simp
  | cons p ps ih =>
    -- a key that is not there yet is put at the end
    have hp : p.1 ∉ keys m := by
      intro hmem
      exact (List.nodup_append.1 h).2.2 _ hmem _ (by simp) rfl
    rw [List.foldl_cons, put_of_not_mem hp, ih]
    · simp
    · simpa [keys] using h

/-- Pairs with distinct keys are the map that they build. -/
theorem ofList_of_nodup {ps : List (κ × α)} (h : (ps.map (·.1)).Nodup) : ofList ps = ps := by
  rw [ofList, foldl_put_of_nodup ps (by simpa using h), List.nil_append]

/-! ## What happens to keys -/

theorem mem_keys_foldl_put {ps : List (κ × α)} {m : Entries κ α} {k : κ} :
    k ∈ keys (ps.foldl (fun m p => put p.1 p.2 m) m) ↔ k ∈ keys m ∨ k ∈ ps.map (·.1) := by
  induction ps generalizing m with
  | nil => simp
  | cons p ps ih =>
    rw [List.foldl_cons, ih, mem_keys_put, List.map_cons, List.mem_cons]
    tauto

/-- Under keys that are there already, values change and nothing else. -/
theorem keys_foldl_put_of_mem {ps : List (κ × α)} {m : Entries κ α}
    (h : ∀ p ∈ ps, p.1 ∈ keys m) : keys (ps.foldl (fun m p => put p.1 p.2 m) m) = keys m := by
  induction ps generalizing m with
  | nil => rfl
  | cons p ps ih =>
    have hp := keys_put_of_mem (h p List.mem_cons_self) p.2
    refine (ih fun q hq => ?_).trans hp
    rw [hp]
    exact h q (List.mem_cons_of_mem _ hq)

theorem keys_ensure (k : κ) (a : α) (m : Entries κ α) :
    keys (ensure k a m) = if k ∈ keys m then keys m else keys m ++ [k] := by
  unfold ensure has
  by_cases h : k ∈ keys m
  · rw [if_pos h, if_pos]
    rwa [Option.isSome_iff_ne_none, ne_eq, get?_eq_none_iff, not_not]
  · rw [if_neg h, get?_eq_none_iff.2 h, Option.isSome_none, if_neg Bool.false_ne_true,
      put_of_not_mem h]
    simp [keys]

theorem keys_erase (k : κ) (m : Entries κ α) : keys (erase k m) = (keys m).filter (· ≠ k) := by
  rw [keys, keys, erase, List.filter_map]
  rfl

/-- A map with distinct keys, told by its keys and what is under each of them. -/
theorem eq_of_keys {m m' : Entries κ α} (hm : (keys m).Nodup) (hk : keys m' = keys m)
    (h : ∀ k ∈ keys m, get? k m' = get? k m) : m' = m := by
  induction m generalizing m' with
  | nil => exact List.map_eq_nil_iff.1 hk
  | cons e rest ih =>
    obtain ⟨k, a⟩ := e
    cases m' with
    | nil => cases hk
    | cons e' rest' =>
      obtain ⟨k', a'⟩ := e'
      rw [keys_cons, keys_cons, List.cons.injEq] at hk
      obtain ⟨rfl, hk⟩ := hk
      rw [keys_cons, List.nodup_cons] at hm
      have ha := h k' List.mem_cons_self
      simp only [get?, if_true, Option.some.injEq] at ha
      subst ha
      rw [ih hm.2 hk fun k hkm => ?_]
      -- no later entry has the key of the first
      have hne : k' ≠ k := fun heq => hm.1 (heq ▸ hkm)
      have hget := h k (List.mem_cons_of_mem _ hkm)
      rwa [get?, get?, if_neg hne, if_neg hne] at hget

theorem get?_map {β : Type} (f : κ → α → β) (k : κ) (m : Entries κ α) :
    get? k (m.map fun e => (e.1, f e.1 e.2)) = (get? k m).map (f k) := by
  induction m with
  | nil => rfl
  | cons e m ih =>
    simp only [List.map_cons, get?, ih]
    split
    · rename_i h
      simp [h]
    · rfl

/-! ## Keys in the order in which they first come -/

/-- Keys in the order in which they first come. -/
def distinct (ks : List κ) : List κ := keys (ofList (ks.map fun k => (k, ())))

theorem nodup_distinct (ks : List κ) : (distinct ks).Nodup := nodup_ofList _

@[simp] theorem mem_distinct {k : κ} {ks : List κ} : k ∈ distinct ks ↔ k ∈ ks := by
  rw [distinct, ofList, mem_keys_foldl_put, List.map_map]
  simp [keys, Function.comp_def]

/-- A map whose values are told by the keys. -/
theorem ofList_map (f : κ → α) (ks : List κ) :
    ofList (ks.map fun k => (k, f k)) = (distinct ks).map fun k => (k, f k) := by
  have hput (k : κ) (m : Entries κ Unit) :
      put k (f k) (m.map fun e => (e.1, f e.1)) = (put k () m).map fun e => (e.1, f e.1) := by
    induction m with
    | nil => rfl
    | cons e rest ih =>
      obtain ⟨k', u⟩ := e
      by_cases h : k' = k
      · simp [put, h]
      · simp [put, h, ih]
  have hfold (m : Entries κ Unit) :
      (ks.map fun k => (k, f k)).foldl (fun m p => put p.1 p.2 m) (m.map fun e => (e.1, f e.1)) =
        ((ks.map fun k => (k, ())).foldl (fun m p => put p.1 p.2 m) m).map
          fun e => (e.1, f e.1) := by
    induction ks generalizing m with
    | nil => rfl
    | cons k ks ih =>
      rw [List.map_cons, List.foldl_cons, hput, ih]
      rfl
  refine (hfold []).trans ?_
  rw [distinct, keys, List.map_map]
  rfl

end Entries

end Kanban
