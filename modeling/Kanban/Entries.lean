/-!
# Kanban.Entries — finite maps in insertion order

A map is the list of its entries, oldest first. Putting a value under a key that is
already there keeps the entry's place; a new key goes to the end. The order is part of
the data: it is the storage order of an account and the tie order of every stable sort.

* `get?_put_self`, `get?_put_of_ne` — a put is read back under its key and nowhere else.
* `mem_of_get?` — what is read under a key is an entry.
* `keys_put_of_mem` — a put under a key that is there leaves the order alone.
-/

namespace Kanban

/-- A finite map as the list of its entries, oldest first. -/
abbrev Entries (κ α : Type) := List (κ × α)

namespace Entries

variable {κ α : Type} [DecidableEq κ]

/-- The value under a key: that of the first entry with the key. -/
def get? (k : κ) : Entries κ α → Option α
  | [] => none
  | (k', a) :: rest => if k' = k then some a else get? k rest

/-- Whether some entry has the key. -/
def has (k : κ) (m : Entries κ α) : Bool := (get? k m).isSome

/-- The keys in order. -/
def keys (m : Entries κ α) : List κ := m.map (·.1)

/-- The values in order. -/
def values (m : Entries κ α) : List α := m.map (·.2)

/-- Put a value under a key, in the key's old place or at the end. -/
def put (k : κ) (a : α) : Entries κ α → Entries κ α
  | [] => [(k, a)]
  | (k', a') :: rest => if k' = k then (k', a) :: rest else (k', a') :: put k a rest

/-- Drop the entries of a key. -/
def erase (k : κ) (m : Entries κ α) : Entries κ α := m.filter fun e => e.1 ≠ k

/-- Put the default under a key that is not there yet. -/
def ensure (k : κ) (a : α) (m : Entries κ α) : Entries κ α := if has k m then m else put k a m

/-- The map that a list of pairs builds, a later pair overriding an earlier one. -/
def ofList (ps : List (κ × α)) : Entries κ α := ps.foldl (fun m p => put p.1 p.2 m) []

/-- Put every entry of the second map into the first. -/
def merge (m m' : Entries κ α) : Entries κ α := m'.foldl (fun m p => put p.1 p.2 m) m

@[simp] theorem get?_nil (k : κ) : get? k ([] : Entries κ α) = none := rfl

@[simp] theorem get?_put_self (k : κ) (a : α) (m : Entries κ α) : get? k (put k a m) = some a := by
  induction m with
  | nil => simp [put, get?]
  | cons e rest ih =>
    obtain ⟨k', a'⟩ := e
    by_cases h : k' = k <;> simp [put, get?, h, ih]

theorem get?_put_of_ne {k k' : κ} (h : k' ≠ k) (a : α) (m : Entries κ α) :
    get? k' (put k a m) = get? k' m := by
  induction m with
  | nil => simp [put, get?, h.symm]
  | cons e rest ih =>
    obtain ⟨k'', a''⟩ := e
    by_cases hk : k'' = k
    · subst hk; simp [put, get?, h.symm]
    · by_cases hk' : k'' = k'
      · simp [put, get?, hk', h]
      · simp [put, get?, hk, hk', ih]

theorem mem_of_get? {k : κ} {a : α} {m : Entries κ α} (h : get? k m = some a) : (k, a) ∈ m := by
  induction m with
  | nil => simp at h
  | cons e rest ih =>
    obtain ⟨k', a'⟩ := e
    by_cases hk : k' = k
    · simp only [get?, hk, if_true, Option.some.injEq] at h
      simp [hk, h]
    · simp only [get?, hk, if_false] at h
      exact List.mem_cons_of_mem _ (ih h)

theorem mem_keys_of_get? {k : κ} {a : α} {m : Entries κ α} (h : get? k m = some a) : k ∈ keys m :=
  List.mem_map_of_mem (mem_of_get? h)

theorem keys_put_of_mem {k : κ} {m : Entries κ α} (h : k ∈ keys m) (a : α) :
    keys (put k a m) = keys m := by
  induction m with
  | nil => simp [keys] at h
  | cons e rest ih =>
    obtain ⟨k', a'⟩ := e
    by_cases hk : k' = k
    · simp [put, keys, hk]
    · have : k ∈ keys rest := by
        simp only [keys, List.map_cons, List.mem_cons] at h
        exact h.resolve_left fun e => hk e.symm
      simp only [put, hk, if_false, keys, List.map_cons] at ih ⊢
      rw [show List.map (·.1) (put k a rest) = List.map (·.1) rest from ih this]

end Entries

end Kanban
