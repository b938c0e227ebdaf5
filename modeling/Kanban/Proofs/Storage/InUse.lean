import Kanban.Proofs.Storage.Salvage

/-!
# Kanban.Proofs.Storage.InUse — records in use

The snapshot of an account is read when the account is first used. What it holds counts as there before
it is read: the records in use are those that whoever uses the account next will find, whether or not
all of the snapshot can be read.

* `inUse_eq` — the records in use, from memory and folder.
* `inUse_use` — reading a snapshot does not change them.
* `Untouched.inUse`, `Written.inUse_self`, `Written.inUse_of_ne` — what a write does to them.
-/

namespace Kanban

namespace Storage

variable {account a : String} {r : Records} {s t : Storage}

/-- The records of an account as whoever uses it next finds them. -/
def inUse (account : String) (s : Storage) : Records := (use account s).2.records account

/-- The records in use are those in memory, with what can be read of the snapshot if it was not read
yet. -/
theorem inUse_eq (account : String) (s : Storage) :
    s.inUse account =
      if s.repository.loaded.contains account then s.records account else s.salvaged account := by
  unfold inUse
  by_cases hl : s.repository.loaded.contains account
  · rw [use_of_loaded hl, if_pos hl]
  · rw [use_of_fresh hl, if_neg hl]
    unfold salvaged
    cases s.folder with
    | none => rfl
    | some f =>
      simp only [Option.map_some]
      cases Snapshot.load account f with
      | error e => rfl
      | ok found =>
        cases found with
        | none => rfl
        | some data => exact records_takeOver account data (s.marked account)

theorem inUse_of_loaded (h : s.repository.loaded.contains account = true) :
    s.inUse account = s.records account := by
  rw [inUse_eq, if_pos h]

/-- Reading the snapshot of an account leaves the folder, the records of all others and whether they
were read. -/
theorem framed_use (account : String) (s : Storage) :
    (use account s).2.folder = s.folder ∧ ∀ a, a ≠ account →
      (use account s).2.records a = s.records a ∧
        (use account s).2.repository.loaded.contains a = s.repository.loaded.contains a := by
  -- Each piece of loading works on `account` alone.
  refine keeps_use (P := fun t => t.folder = s.folder ∧ ∀ a, a ≠ account →
    t.records a = s.records a ∧ t.repository.loaded.contains a = s.repository.loaded.contains a)
    ?_ ?_ ?_ ?_ ⟨rfl, fun _ _ => ⟨rfl, rfl⟩⟩
  · intro t ⟨hf, ht⟩
    refine ⟨hf, fun a ha => ⟨(ht a ha).1, ?_⟩⟩
    rw [← (ht a ha).2]
    simp [marked, ha]
  · exact fun t x ⟨hf, ht⟩ =>
      ⟨hf, fun a ha => ⟨(records_withRecords_of_ne ha _ t).trans (ht a ha).1, (ht a ha).2⟩⟩
  · exact fun t c ⟨hf, ht⟩ =>
      ⟨hf, fun a ha => ⟨(records_withRecords_of_ne ha _ t).trans (ht a ha).1, (ht a ha).2⟩⟩
  · intro t q ⟨hf, ht⟩ hq
    rw [Repository.renumber_eq hq]
    exact ⟨hf, ht⟩

/-- Where the records in memory and the snapshot of an account are the same, so are the records in
use. -/
theorem inUse_congr (hr : t.records a = s.records a)
    (hl : t.repository.loaded.contains a = s.repository.loaded.contains a)
    (hf : t.folder.map (Snapshot.load a) = s.folder.map (Snapshot.load a)) :
    t.inUse a = s.inUse a := by
  rw [inUse_eq, inUse_eq, hl]
  unfold salvaged
  rw [hr, hf]

/-- Reading a snapshot changes no records in use. -/
theorem inUse_use (account a : String) (s : Storage) :
    (use account s).2.inUse a = s.inUse a := by
  by_cases ha : a = account
  · subst ha
    exact inUse_of_loaded (loaded_use a s)
  · obtain ⟨hf, hothers⟩ := framed_use account s
    obtain ⟨hr, hl⟩ := hothers a ha
    exact inUse_congr hr hl (congrArg (Option.map (Snapshot.load a)) hf)

/-- What is read of a folder is read of its contents. -/
theorem load_files (a : String) (s : Storage) :
    s.files.map (Snapshot.load a) = s.folder.map (Snapshot.load a) := by
  unfold files
  rw [Option.map_map]
  rfl

theorem Untouched.inUse (h : s.Untouched t) (a : String) : t.inUse a = s.inUse a := by
  refine inUse_congr (h.records a) (congrArg (List.contains · a) h.loaded) ?_
  rw [← load_files, ← load_files, h.files]

/-- Storing records of an account changes no records in use of others, unless one file is that of
both. -/
theorem Written.inUse_of_ne (h : Written account r s t) (ha : a ≠ account)
    (hfile : Snapshot.fileName a ≠ Snapshot.fileName account) : t.inUse a = s.inUse a := by
  -- The two accounts have files of their own, so reading one does not see the other.
  refine inUse_congr (h.records_of_ne ha) (congrArg (List.contains · a) h.loaded) ?_
  rw [← load_files, ← load_files, h.files, Option.map_map]
  congr 1
  funext f
  have hget (bytes : List UInt8) : (f.hold (Snapshot.fileName account) bytes).get?
      (Snapshot.fileName a) = f.get? (Snapshot.fileName a) := by
    unfold Folder.get? Folder.hold
    rw [Entries.get?_put_of_ne hfile]
  simp only [Function.comp_apply, Snapshot.load, hget]

theorem Written.inUse_self (h : Written account r s t)
    (hl : s.repository.loaded.contains account = true) : t.inUse account = r := by
  rw [inUse_of_loaded, h.records_self]
  rw [h.loaded]
  exact hl

end Storage

end Kanban
