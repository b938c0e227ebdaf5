import Kanban.Proofs.Decimal.Numeral
import Kanban.Proofs.Storage.Writing

/-!
# Kanban.Proofs.Storage.Using — reading an account's snapshot

When an account is used for the first time, the records of its snapshot are taken over one by one,
and then new stages are numbered after all that have a number. Whatever the snapshot holds, records
are filed under their ids, no other account is touched, and no number is given twice.

* `keeps_use` — what taking over keeps, using an account keeps.
* `Numbered`, `Numbered.renumber` — stages are named by numbers that were given before.
-/

namespace Kanban

namespace Storage

open Operation

variable {account : String} {s t : Storage} {P : Storage → Prop}

/-- The storage with the records of an account replaced. -/
def withRecords (account : String) (r : Records) (s : Storage) : Storage :=
  { s with repository := s.repository.setRecords account r }

theorem records_withRecords_self (account : String) (r : Records) (s : Storage) :
    (s.withRecords account r).records account = r := Repository.records_setRecords_self _ _ _

theorem records_withRecords_of_ne {other : String} (h : other ≠ account) (r : Records)
    (s : Storage) : (s.withRecords account r).records other = s.records other :=
  Repository.records_setRecords_of_ne h _ _

/-- What is kept while stages and cards of a snapshot are stored in memory. -/
theorem keeps_takeOver (hstage : ∀ t x, P t → P (t.withRecords account ((t.records account).putStage x)))
    (hcard : ∀ t c, P t → P (t.withRecords account ((t.records account).putCard c)))
    (hnumber : ∀ t r, P t → t.repository.renumber = .ok r → P { t with repository := r })
    (data : Entries String Value) {s : Storage} (hs : P s) : P (takeOver account data s).2 := by
  unfold takeOver
  refine keeps_lift hs fun stages _ => ?_
  refine keeps_bind (keeps_forM (fun v _ t ht => ?_) hs) fun _ t ht => ?_
  · -- stages are taken over first, then cards, and at last the new number is reckoned
    exact keeps_lift ht fun x _ => hstage t x ht
  · refine keeps_lift ht fun cards _ => ?_
    refine keeps_bind (keeps_forM (fun v _ u hu => ?_) ht) fun _ u hu => ?_
    · exact keeps_lift hu fun c _ => hcard u c hu
    · rw [bind_apply, get_apply]
      refine keeps_lift hu fun r hr => hnumber u r hu ?_
      unfold Failure.ofReading at hr
      cases hn : u.repository.renumber with
      | error e => simp [hn] at hr
      | ok r' => simpa [hn] using hr

/-- An account whose snapshot was read is used as it is. -/
theorem use_of_loaded (h : s.repository.loaded.contains account) : use account s = (.ok (), s) := by
  unfold use
  rw [bind_apply, get_apply]
  dsimp only
  rw [if_apply, if_pos h]
  rfl

/-- The storage with an account marked as used. -/
def marked (account : String) (s : Storage) : Storage :=
  { s with repository := { s.repository with loaded := account :: s.repository.loaded } }

/-- An account is used for the first time: what its snapshot holds is taken over. -/
theorem use_of_fresh (h : ¬ s.repository.loaded.contains account) :
    use account s = match s.folder with
      | none => (.ok (), s.marked account)
      | some f => match Snapshot.load account f with
        | .error e => (.error e, s.marked account)
        | .ok none => (.ok (), s.marked account)
        | .ok (some data) => takeOver account data (s.marked account) := by
  unfold use
  rw [bind_apply, get_apply]
  dsimp only
  -- marked before anything is read, so that every way out leaves the account marked
  rw [if_apply, if_neg h, bind_apply, set_apply]
  cases hf : s.folder with
  | none => simp only [marked, hf, pure_apply]
  | some f =>
    simp only [bind_apply, lift_apply, marked, hf]
    cases Snapshot.load account f with
    | error e => rfl
    | ok data => cases data <;> rfl

/-- What is kept when an account is used. -/
theorem keeps_use (hmark : ∀ t, P t → P (t.marked account))
    (hstage : ∀ t x, P t → P (t.withRecords account ((t.records account).putStage x)))
    (hcard : ∀ t c, P t → P (t.withRecords account ((t.records account).putCard c)))
    (hnumber : ∀ t r, P t → t.repository.renumber = .ok r → P { t with repository := r })
    {s : Storage} (hs : P s) : P (use account s).2 := by
  by_cases hl : s.repository.loaded.contains account
  · rw [use_of_loaded hl]
    exact hs
  · rw [use_of_fresh hl]
    have hu := hmark s hs
    cases s.folder with
    | none => exact hu
    | some f =>
      dsimp only
      cases Snapshot.load account f with
      | error e => exact hu
      | ok data =>
        cases data with
        | none => exact hu
        | some data => exact keeps_takeOver hstage hcard hnumber data hu

end Storage

/-! ## Numbers -/

namespace Repository

variable {r r' : Repository}

/-- What succeeds for a list succeeds for each of its members. -/
theorem mem_of_mapM {ε α β : Type} {f : α → Except ε β} {l : List α} {bs : List β}
    (h : l.mapM f = .ok bs) {a : α} (ha : a ∈ l) : ∃ b ∈ bs, f a = .ok b := by
  induction l generalizing bs with
  | nil => cases ha
  | cons a' l ih =>
    rw [List.mapM_cons] at h
    cases hfa : f a' with
    | error e =>
      rw [hfa] at h
      cases h
    | ok b =>
      cases hl : l.mapM f with
      | error e =>
        rw [hfa, hl] at h
        cases h
      | ok bs' =>
        rw [hfa, hl] at h
        obtain rfl : b :: bs' = bs := Except.ok.inj h
        rcases List.mem_cons.1 ha with rfl | ha
        · exact ⟨b, List.mem_cons_self, hfa⟩
        · obtain ⟨b', hb', hfb⟩ := ih hl ha
          exact ⟨b', List.mem_cons_of_mem _ hb', hfb⟩

/-- New stages are numbered after all stages that have a number. -/
theorem lt_of_renumber (h : r.renumber = .ok r') {id : String} (hid : id ∈ r.stageIds) {n : Nat}
    (hn : stageNumber id = .ok (some n)) : n < r'.nextStage := by
  unfold renumber at h
  cases hm : r.stageIds.mapM stageNumber with
  | error e =>
    rw [hm] at h
    cases h
  | ok numbers =>
    rw [hm] at h
    obtain rfl := Except.ok.inj h
    -- the number is among those that were read, and the next one is above the highest
    obtain ⟨o, ho, hfo⟩ := mem_of_mapM hm hid
    obtain rfl : some n = o := Except.ok.inj (hn.symm.trans hfo)
    have hmem : n ∈ numbers.filterMap fun o => o := List.mem_filterMap.2 ⟨some n, ho, rfl⟩
    have hle : n ≤ (0 :: numbers.filterMap fun o => o).max?.getD 0 :=
      List.le_max?_getD_of_mem (List.mem_cons_of_mem _ hmem)
    exact Nat.lt_succ_of_le hle

/-- Numbering changes nothing else. -/
theorem renumber_eq (h : r.renumber = .ok r') : r' = { r with nextStage := r'.nextStage } := by
  unfold renumber at h
  cases hm : r.stageIds.mapM stageNumber with
  | error e =>
    rw [hm] at h
    cases h
  | ok numbers =>
    rw [hm] at h
    obtain rfl := Except.ok.inj h
    rfl

/-- No stage id of an account is a number that is too long where all stages could be numbered. -/
theorem number_of_renumber (h : r.renumber = .ok r') {n : Nat} (hid : toString n ∈ r.stageIds) :
    n < r'.nextStage := by
  refine lt_of_renumber h hid ?_
  rw [stageNumber_toString]
  split
  · -- an id too long to be read would have failed the renumbering
    rename_i hlong
    unfold renumber at h
    cases hm : r.stageIds.mapM stageNumber with
    | error e =>
      rw [hm] at h
      cases h
    | ok numbers =>
      obtain ⟨o, -, ho⟩ := mem_of_mapM hm hid
      rw [stageNumber_toString, if_pos hlong] at ho
      cases ho
  · rfl

theorem mem_stageIds {account id : String} (h : id ∈ Entries.keys (r.records account).stages) :
    id ∈ r.stageIds := by
  unfold records at h
  cases hr : Entries.get? account r.accounts with
  | none =>
    rw [hr] at h
    cases h
  | some a =>
    rw [hr] at h
    exact List.mem_flatMap.2 ⟨a, Entries.mem_values_of_get? hr, h⟩

end Repository

namespace Storage

open Operation

variable {account : String} {s t : Storage}

/-- The stages of an account are named by numbers that were given before. -/
def Numbered (account : String) (s : Storage) : Prop :=
  ∀ id ∈ Entries.keys (s.records account).stages, ∃ n < s.repository.nextStage, id = toString n

/-- Stages stay named when none is new and no number is given back. -/
theorem Numbered.mono (h : s.Numbered account)
    (hk : ∀ id ∈ Entries.keys (t.records account).stages, id ∈ Entries.keys (s.records account).stages)
    (hn : s.repository.nextStage ≤ t.repository.nextStage) : t.Numbered account := by
  intro id hid
  obtain ⟨n, hlt, rfl⟩ := h id (hk id hid)
  exact ⟨n, Nat.lt_of_lt_of_le hlt hn, rfl⟩

theorem Numbered.frame (h : s.Numbered account) (hr : t.records account = s.records account)
    (hn : s.repository.nextStage ≤ t.repository.nextStage) : t.Numbered account :=
  h.mono (fun _ hid => hr ▸ hid) hn

theorem Numbered.renumber (h : s.Numbered account) {r : Repository}
    (hr : s.repository.renumber = .ok r) : Storage.Numbered account { s with repository := r } := by
  intro id hid
  have hsame : Storage.records account { s with repository := r } = s.records account := by
    rw [Repository.renumber_eq hr]
    rfl
  rw [hsame] at hid
  obtain ⟨n, -, rfl⟩ := h id hid
  exact ⟨n, Repository.number_of_renumber hr (Repository.mem_stageIds hid), rfl⟩

/-- A new number names no stage yet. -/
theorem Numbered.fresh (h : s.Numbered account) :
    toString s.repository.nextStage ∉ Entries.keys (s.records account).stages := by
  intro hid
  obtain ⟨n, hlt, heq⟩ := h _ hid
  have hn : s.repository.nextStage = n := Decimal.Numeral.toString_inj heq
  omega

/-! ## Other accounts -/

/-- Using an account touches the records of no other that is in use, and all stages stay named. -/
theorem use_others {a : String} (ha : a ≠ account) {r : Records} (hr : s.records a = r)
    (hn : s.Numbered a) (hl : s.repository.loaded.contains a = true) :
    (use account s).2.records a = r ∧ (use account s).2.Numbered a ∧
      (use account s).2.repository.loaded.contains a = true := by
  refine keeps_use (P := fun t => t.records a = r ∧ t.Numbered a ∧
    t.repository.loaded.contains a = true) ?_ ?_ ?_ ?_ ⟨hr, hn, hl⟩
  · intro t ⟨hr, hn, hl⟩
    refine ⟨hr, hn, ?_⟩
    rw [List.contains_iff_mem] at hl ⊢
    exact List.mem_cons_of_mem _ hl
  · -- what is taken over goes to the records of the account, and the other is not touched
    intro t x ⟨hr, hn, hl⟩
    have hsame := records_withRecords_of_ne ha ((t.records account).putStage x) t
    exact ⟨hsame.trans hr, hn.frame hsame (Nat.le_refl _), hl⟩
  · intro t c ⟨hr, hn, hl⟩
    have hsame := records_withRecords_of_ne ha ((t.records account).putCard c) t
    exact ⟨hsame.trans hr, hn.frame hsame (Nat.le_refl _), hl⟩
  · intro t q ⟨hr, hn, hl⟩ hq
    refine ⟨?_, hn.renumber hq, ?_⟩
    · rw [Repository.renumber_eq hq]
      exact hr
    · rw [Repository.renumber_eq hq]
      exact hl

/-- Using an account leaves the records of every account filed. -/
theorem filed_use {a : String} (h : (s.records a).Filed) : ((use account s).2.records a).Filed := by
  refine keeps_use (P := fun t => (t.records a).Filed) ?_ ?_ ?_ ?_ h
  · exact fun t ht => ht
  · intro t x ht
    by_cases ha : a = account
    · rw [ha, records_withRecords_self]
      exact Records.filed_putStage (ha ▸ ht) x
    · rw [records_withRecords_of_ne ha]
      exact ht
  · intro t c ht
    by_cases ha : a = account
    · rw [ha, records_withRecords_self]
      exact Records.filed_putCard (ha ▸ ht) c
    · rw [records_withRecords_of_ne ha]
      exact ht
  · intro t q ht hq
    rw [Repository.renumber_eq hq]
    exact ht

/-! ## Accounts that count as used -/

/-- Taking over a snapshot leaves the folder alone, and the accounts that count as used. -/
theorem framed_takeOver (account : String) (data : Entries String Value) (s : Storage) :
    (takeOver account data s).2.repository.loaded = s.repository.loaded ∧
      (takeOver account data s).2.folder = s.folder := by
  refine keeps_takeOver (P := fun t => t.repository.loaded = s.repository.loaded ∧
    t.folder = s.folder) (fun _ _ h => h) (fun _ _ h => h) (fun t q h hq => ?_) data ⟨rfl, rfl⟩
  rw [Repository.renumber_eq hq]
  exact h

/-- An account that is used counts as used, even if its snapshot cannot be read. -/
theorem loaded_use (account : String) (s : Storage) :
    (use account s).2.repository.loaded.contains account = true := by
  have hmarked : (s.marked account).repository.loaded.contains account = true := by simp [marked]
  by_cases hl : s.repository.loaded.contains account
  · rw [use_of_loaded hl]
    exact hl
  · rw [use_of_fresh hl]
    cases s.folder with
    | none => exact hmarked
    | some f =>
      dsimp only
      cases Snapshot.load account f with
      | error e => exact hmarked
      | ok data =>
        cases data with
        | none => exact hmarked
        | some data =>
          dsimp only
          rw [(framed_takeOver account data _).1]
          exact hmarked

end Storage

end Kanban
