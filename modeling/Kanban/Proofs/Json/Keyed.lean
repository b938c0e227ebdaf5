import Kanban.Proofs.Json.Values

/-!
# Kanban.Proofs.Json.Keyed — what is read holds every key once

Of several entries of an object with one key the reader keeps the last value in the first place. So
in a value that was read from a text objects hold every key once, at any depth, and such a value is
read back when it is written again.

* `keyed_value` — at every depth, by recursion along the reader.
* `keyed_parse` — a text is read as such a value.
-/

namespace Kanban

namespace Value

variable {k : String} {v : Value} {es : List (String × Value)}

theorem keyedEntries_iff : KeyedEntries es ↔ ∀ e ∈ es, e.2.Keyed := by
  induction es with
  | nil => exact ⟨fun _ => nofun, fun _ => trivial⟩
  | cons e es ih => rw [KeyedEntries, ih, List.forall_mem_cons]

theorem KeyedItems.of_mem {vs : List Value} (h : KeyedItems vs) (hv : v ∈ vs) : v.Keyed := by
  induction vs with
  | nil => cases hv
  | cons w vs ih =>
    rcases List.mem_cons.1 hv with rfl | hv
    · exact h.1
    · exact ih h.2 hv

/-- An entry that is put into an object leaves every key there once. -/
theorem keyed_put (hv : v.Keyed) (h : (Value.object es).Keyed) :
    (Value.object (Entries.put k v es)).Keyed := by
  refine ⟨Entries.nodup_put h.1 k v, keyedEntries_iff.2 fun e he => ?_⟩
  rcases Entries.mem_of_mem_put he with he | ⟨-, rfl⟩
  · exact keyedEntries_iff.1 h.2 e he
  · exact hv

/-- What is under a key of an object holds every key once. -/
theorem keyed_getD (h : (Value.object es).Keyed) {w : Value} (hw : w.Keyed) :
    (Entries.getD k es w).Keyed := by
  unfold Entries.getD
  cases hget : Entries.get? k es with
  | none => exact hw
  | some v => exact keyedEntries_iff.1 h.2 _ (Entries.mem_of_get? hget)

end Value

namespace Json

/-- A word is read as a value without objects, and so is a number. -/
theorem keyed_word {cs : List Char} {r : Value × List Char} (h : word? cs = some r) :
    r.1.Keyed := by
  obtain ⟨⟨w, v⟩, hw, hr⟩ := List.exists_of_findSome?_eq_some h
  obtain ⟨-, hr⟩ := Option.ite_none_right_eq_some.1 hr
  obtain rfl := Option.some.inj hr
  simp only [words, List.mem_cons, List.not_mem_nil, or_false] at hw
  rcases hw with hw | hw | hw | hw | hw | hw <;> cases hw <;> trivial

theorem keyed_number {cs : List Char} {r : Value × List Char} (h : number cs = .ok r) :
    r.1.Keyed := by
  unfold number at h
  dsimp only at h
  split at h
  · cases h
  · rcases ite_eq_iff.1 h with ⟨-, h⟩ | ⟨-, h⟩
    · obtain rfl := Except.ok.inj h
      trivial
    · rcases ite_eq_iff.1 h with ⟨-, h⟩ | ⟨-, h⟩
      · cases h
      · obtain rfl := Except.ok.inj h
        trivial

/-- What was read is the first part of a pair that a reader gives. -/
theorem map_fst {α : Type} {x : Except Problem (α × List Char)} {f : α → Value}
    {v : Value} {rest : List Char} (h : x.map (fun p => (f p.1, p.2)) = .ok (v, rest)) :
    ∃ a, x = .ok (a, rest) ∧ v = f a := by
  cases x with
  | error e => cases h
  | ok p =>
    obtain ⟨a, rest'⟩ := p
    obtain ⟨rfl, rfl⟩ := Prod.mk.inj (Except.ok.inj h)
    exact ⟨a, rfl, rfl⟩

mutual

theorem keyed_value : ∀ (fuel depth : Nat) (cs : List Char) (v : Value) (rest : List Char),
    value depth fuel cs = .ok (v, rest) → v.Keyed
  -- Induction on the fuel, which the three readers share. An object starts from the entries
  -- read so far, so that is what has to be keyed.
  | 0, _, _, _, _, h => by simp [value] at h
  | fuel + 1, depth, cs, v, rest, h => by
    unfold value at h
    split at h
    · split at h
      · obtain ⟨rfl, -⟩ := Prod.mk.inj (Except.ok.inj h)
        trivial
      · cases h
    · split at h
      · cases h
      · split at h
        · obtain ⟨rfl, -⟩ := Prod.mk.inj (Except.ok.inj h)
          trivial
        · obtain ⟨vs, hvs, rfl⟩ := map_fst h
          exact keyed_items fuel _ _ _ _ hvs
    · split at h
      · cases h
      · split at h
        · obtain ⟨rfl, -⟩ := Prod.mk.inj (Except.ok.inj h)
          exact ⟨List.nodup_nil, trivial⟩
        · obtain ⟨es, hes, rfl⟩ := map_fst h
          exact keyed_entries fuel _ [] _ _ _ ⟨List.nodup_nil, trivial⟩ hes
    · split at h
      · rename_i hword
        obtain rfl := Except.ok.inj h
        exact keyed_word hword
      · exact keyed_number h

theorem keyed_items : ∀ (fuel depth : Nat) (cs : List Char) (vs : List Value) (rest : List Char),
    items depth fuel cs = .ok (vs, rest) → Value.KeyedItems vs
  | 0, _, _, _, _, h => by simp [items] at h
  | fuel + 1, depth, cs, vs, rest, h => by
    unfold items at h
    split at h
    · cases h
    · rename_i v rest' hvalue
      have hv := keyed_value fuel _ _ _ _ hvalue
      split at h
      · obtain ⟨rfl, -⟩ := Prod.mk.inj (Except.ok.inj h)
        exact ⟨hv, trivial⟩
      · rename_i next _
        cases hnext : items depth fuel (skip next) with
        | error e =>
          rw [hnext] at h
          cases h
        | ok p =>
          rw [hnext] at h
          obtain ⟨rfl, -⟩ := Prod.mk.inj (Except.ok.inj h)
          exact ⟨hv, keyed_items fuel _ _ _ _ hnext⟩
      · cases h

theorem keyed_entries : ∀ (fuel depth : Nat) (sofar : Entries String Value) (cs : List Char)
    (es : Entries String Value) (rest : List Char), (Value.object sofar).Keyed →
    entries depth fuel sofar cs = .ok (es, rest) → (Value.object es).Keyed
  | 0, _, _, _, _, _, _, h => by simp [entries] at h
  | fuel + 1, depth, sofar, cs, es, rest, hsofar, h => by
    unfold entries at h
    split at h
    · split at h
      · cases h
      · split at h
        · split at h
          · cases h
          · rename_i hvalue
            have hv := keyed_value fuel _ _ _ _ hvalue
            dsimp only at h
            split at h
            · obtain ⟨rfl, -⟩ := Prod.mk.inj (Except.ok.inj h)
              exact Value.keyed_put hv hsofar
            · exact keyed_entries fuel _ _ _ _ _ (Value.keyed_put hv hsofar) h
            · cases h
        · cases h
    · cases h

end

/-- In a value that a text holds, objects hold every key once. -/
theorem keyed_parse {s : String} {v : Value} (h : parse s = .ok v) : v.Keyed := by
  unfold parse at h
  dsimp only at h
  split at h
  · cases h
  · rename_i w rest hvalue
    split at h
    · obtain rfl := Except.ok.inj h
      exact keyed_value _ _ _ _ _ hvalue
    · cases h

end Json

end Kanban
