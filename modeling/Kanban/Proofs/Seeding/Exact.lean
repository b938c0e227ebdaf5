import Kanban.CommandLine.Run
import Kanban.Proofs.Seeding.Steps

/-!
# Kanban.Proofs.Seeding.Exact — what seeding leaves

A board that has no stages is given the default ones, and then as many sample cards as were asked
for are put into its first stage, under the first numbers that name no card of the account. Nothing
else is touched, and the folder holds exactly what was there with what was added behind it. The one
thing that can go wrong where everything can be stored is an id: a number of more than
`Decimal.Numeral.maxDigits` digits cannot be written.

* `newStages`, `newCards`, `recordsAfter` — what is stored, and what the account then consists of.
* `run_ok_iff` — when a board is seeded; `carryOut_seed` — what the command makes of it.
* `apply_changes`, `stagesOf_recordsAfter` — the records afterwards, as they are stored and read.
* `Exact`, `seed_exact_iff` — all that is promised, and exactly when it is kept.
-/

namespace Kanban

open Operation

namespace Seeding

variable {account : String} {board : Key} {n : Nat} {s t u : Storage} {r : Records}

/-! ## What is to be stored -/

/-- The stages that a board is given: the default ones, if it has none. -/
def newStages (account : String) (board : Key) (s : Storage) : List Stage :=
  if ((s.records account).stagesOf board).isEmpty then
    starters board s.repository.nextStage Stage.defaults
  else []

/-- The stages of a board from left to right, once it was given some. -/
def boardStages (account : String) (board : Key) (s : Storage) : List Stage :=
  (s.records account).stagesOf board ++ newStages account board s

/-- The sample cards that a board is given: in its first stage, under the first numbers that name no
card of the account. -/
noncomputable def newCards (account : String) (board : Key) (n : Nat) (s : Storage) : List Card :=
  match boardStages account board s with
  | [] => []
  | first :: _ => samples board first.key (firstFree (Entries.keys (s.records account).cards) n)

/-- All that is to be stored, one after the other. -/
noncomputable def changes (account : String) (board : Key) (n : Nat) (s : Storage) : List Change :=
  (newStages account board s).map (fun x => { stages := [x] }) ++
    (newCards account board n s).map fun c => { cards := [c] }

/-- All ids that are to be stored are short enough to be written. -/
def Writable (account : String) (board : Key) (n : Nat) (s : Storage) : Prop :=
  (∀ x ∈ newStages account board s, x.id.length ≤ Decimal.Numeral.maxDigits) ∧
    ∀ c ∈ newCards account board n s, c.id.length ≤ Decimal.Numeral.maxDigits

/-- On a board that has stages, only the ids of cards are to be written. -/
theorem writable_of_short (hstages : (s.records account).stagesOf board ≠ [])
    (hshort : Short (firstFree (Entries.keys (s.records account).cards) n)) :
    Writable account board n s := by
  have hnew : newStages account board s = [] := if_neg (by simpa using hstages)
  obtain ⟨first, rest, hfirst⟩ := List.exists_cons_of_ne_nil hstages
  have hboard : boardStages account board s = first :: rest := by
    rw [boardStages, hnew, List.append_nil, hfirst]
  refine ⟨by simp [hnew], ?_⟩
  rw [newCards, hboard]
  exact List.forall_mem_map.2 hshort

theorem short_iff_samples (board stage : Key) (numbers : List Nat) :
    Short numbers ↔ ∀ c ∈ samples board stage numbers, c.id.length ≤ Decimal.Numeral.maxDigits := by
  unfold samples Short
  rw [List.forall_mem_map]
  rfl

theorem short_iff_starters (board : Key) (i : Nat) (ds : List Stage.Draft) :
    Short (List.range' i ds.length) ↔
      ∀ x ∈ starters board i ds, x.id.length ≤ Decimal.Numeral.maxDigits := by
  have hids := List.forall_mem_map (l := starters board i ds) (f := (·.id))
    (P := fun id => id.length ≤ Decimal.Numeral.maxDigits)
  rw [← hids, id_starters, List.forall_mem_map]
  rfl

theorem length_starters (board : Key) (i : Nat) (ds : List Stage.Draft) :
    (starters board i ds).length = ds.length := by
  have hids := congrArg List.length (id_starters board i ds)
  rwa [List.length_map, List.length_map, List.length_range'] at hids

/-- A board is given its stages exactly if their ids can be written and they can be stored. -/
theorem seed_ok_iff {xs : List Stage} : Storage.seed account board s = (.ok xs, t) ↔
    (∀ x ∈ newStages account board s, x.id.length ≤ Decimal.Numeral.maxDigits) ∧
      xs = boardStages account board s ∧
      ∃ u, Storage.storeAll account ((newStages account board s).map fun x => { stages := [x] }) s =
          (.ok (), u) ∧
        t = u.numbered (s.repository.nextStage + (newStages account board s).length) := by
  unfold Storage.seed boardStages newStages
  rw [bind_apply, get_apply]
  dsimp only
  rw [if_apply]
  cases hstages : (s.records account).stagesOf board with
  -- a board without stages gets the default ones
  | nil =>
    simp only [List.isEmpty_nil, if_true, List.nil_append]
    rw [addStages_ok_iff (by decide) (by decide) (by simp [hstages]), short_iff_starters board]
    refine and_congr_right fun _ => and_congr_right fun hxs => ?_
    rw [hxs, length_starters]
  -- a board with stages keeps them, and nothing is written
  | cons first rest =>
    simp only [List.isEmpty_cons, Bool.false_eq_true, if_false, List.append_nil]
    constructor
    · intro h
      cases h
      exact ⟨nofun, rfl, _, rfl, rfl⟩
    · rintro ⟨-, rfl, u, hu, rfl⟩
      cases hu
      rfl

/-- Stages that are stored leave the cards alone. -/
theorem apply_stages (xs : List Stage) (r : Records) :
    (xs.map fun x => ({ stages := [x] } : Change)).foldl (fun r c => r.apply c) r =
      { r with stages := xs.foldl (fun m x => Entries.put x.id x m) r.stages } := by
  rw [List.foldl_map, ← Storage.foldl_putStage]
  simp only [Records.apply_stage]

theorem apply_cards (cs : List Card) (r : Records) :
    (cs.map fun c => ({ cards := [c] } : Change)).foldl (fun r c => r.apply c) r =
      { r with cards := cs.foldl (fun m c => Entries.put c.id c m) r.cards } := by
  rw [List.foldl_map, ← Storage.foldl_putCard]
  simp only [Records.apply_card]

/-- A board that was given its stages has some. -/
theorem exists_first (account : String) (board : Key) (s : Storage) :
    ∃ first rest, boardStages account board s = first :: rest := by
  unfold boardStages newStages
  cases (s.records account).stagesOf board with
  | nil => exact ⟨_, _, rfl⟩
  | cons first rest => exact ⟨first, _, rfl⟩

theorem newCards_eq {first : Stage} {rest : List Stage}
    (h : boardStages account board s = first :: rest) (n : Nat) :
    newCards account board n s =
      samples board first.key (firstFree (Entries.keys (s.records account).cards) n) := by
  unfold newCards
  rw [h]

theorem length_newCards (account : String) (board : Key) (n : Nat) (s : Storage) :
    (newCards account board n s).length = n := by
  obtain ⟨first, rest, hfirst⟩ := exists_first account board s
  rw [newCards_eq hfirst, samples, firstFree, List.length_map, List.length_map, List.length_range]

/-- Once a board has its stages, sample cards are put into the first, exactly if their ids can be
written and they can be stored. -/
theorem fill_ok_iff_newCards {first : Stage} {rest : List Stage} {cards : List Card} {m : Nat}
    (h : boardStages account board s = first :: rest)
    (hu : Storage.storeAll account ((newStages account board s).map fun x => { stages := [x] }) s =
      (.ok (), u)) :
    fill account board first.key n 1 (u.numbered m) = (.ok cards, t) ↔
      (∀ c ∈ newCards account board n s, c.id.length ≤ Decimal.Numeral.maxDigits) ∧
        cards = newCards account board n s ∧
        ∃ v, Storage.storeAll account
            ((newCards account board n s).map fun c => { cards := [c] }) u = (.ok (), v) ∧
          t = v.numbered m := by
  -- storing the new stages leaves the cards alone, so the same ids are free
  have hcards : ((u.numbered m).records account).cards = (s.records account).cards := by
    have hrecords : (u.numbered m).records account = u.records account := rfl
    rw [hrecords, (Storage.became_storeAll hu).records_self, apply_stages]
  have hkeys : ∀ k, 1 ≤ k → (toString k ∈ Entries.keys ((u.numbered m).records account).cards ↔
      toString k ∈ Entries.keys (s.records account).cards) := fun k _ => by rw [hcards]
  rw [fill_ok_iff Nat.one_pos hkeys, freeFrom_one, newCards_eq h, short_iff_samples board first.key]
  refine and_congr_right fun _ => and_congr_right fun hcards => ?_
  rw [hcards, Storage.storeAll_numbered_ok]

/-- A board is seeded exactly if all ids that are to be stored can be written, and all of it can be
stored. -/
theorem run_ok_iff {seeded : Seeded} : run account board n s = (.ok seeded, t) ↔
    Writable account board n s ∧ seeded.stages = boardStages account board s ∧
      seeded.cards = newCards account board n s ∧
      ∃ u, Storage.storeAll account (changes account board n s) s = (.ok (), u) ∧
        t = u.numbered (s.repository.nextStage + (newStages account board s).length) := by
  -- a seeded board has a stage, and the sample cards go into the first
  obtain ⟨first, rest, hfirst⟩ := exists_first account board s
  unfold run changes
  simp only [bind_ok_iff, Storage.storeAll_append_ok]
  constructor
  · rintro ⟨xs, v, hxs, h⟩
    obtain ⟨hshort, rfl, u, hu, rfl⟩ := seed_ok_iff.1 hxs
    rw [hfirst] at h
    obtain ⟨cards, w, hfill, h⟩ := bind_ok_iff.1 h
    cases h
    obtain ⟨hcards, rfl, v, hv, rfl⟩ := (fill_ok_iff_newCards hfirst hu).1 hfill
    exact ⟨⟨hshort, hcards⟩, hfirst.symm, rfl, v, ⟨u, hu, hv⟩, rfl⟩
  · rintro ⟨⟨hshort, hcards⟩, hstages, hnew, v, ⟨u, hu, hv⟩, rfl⟩
    refine ⟨_, _, seed_ok_iff.2 ⟨hshort, rfl, u, hu, rfl⟩, ?_⟩
    rw [hfirst]
    refine bind_ok_iff.2 ⟨_, _, (fill_ok_iff_newCards hfirst hu).2 ⟨hcards, rfl, v, hv, rfl⟩, ?_⟩
    obtain ⟨stages, cards⟩ := seeded
    obtain rfl : stages = first :: rest := hstages.trans hfirst
    obtain rfl : cards = newCards account board n s := hnew
    rfl

/-! ## The records afterwards -/

/-- The records once all is stored. -/
noncomputable def recordsAfter (account : String) (board : Key) (n : Nat) (s : Storage) :
    Records where
  cards := (s.records account).cards ++ (newCards account board n s).map fun c => (c.id, c)
  stages := (s.records account).stages ++ (newStages account board s).map fun x => (x.id, x)

/-- New stages have ids of their own. -/
theorem nodup_stages (board : Key) (hf : (s.records account).Filed)
    (hnumber : ∀ i, toString i ∈ Entries.keys (s.records account).stages →
      i < s.repository.nextStage) :
    (Entries.keys (s.records account).stages ++
      ((newStages account board s).map fun x => (x.id, x)).map (·.1)).Nodup := by
  rw [List.map_map]
  unfold newStages
  split
  · have hids : (starters board s.repository.nextStage Stage.defaults).map
          ((·.1) ∘ fun x => (x.id, x)) =
        (List.range' s.repository.nextStage Stage.defaults.length).map toString := id_starters _ _ _
    rw [hids]
    refine List.nodup_append.2 ⟨hf.stages, ?_, ?_⟩
    · exact List.Nodup.map (fun _ _ => Decimal.Numeral.toString_inj) List.nodup_range'
    · -- a new stage has a number that no stage had before
      rintro id hid _ hmem rfl
      obtain ⟨i, hi, rfl⟩ := List.mem_map.1 hmem
      exact absurd (hnumber i hid) (Nat.not_lt.2 (List.mem_range'_1.1 hi).1)
  · simpa using hf.stages

/-- New cards have ids of their own. -/
theorem nodup_cards (board : Key) (n : Nat) (hf : (s.records account).Filed) :
    (Entries.keys (s.records account).cards ++
      ((newCards account board n s).map fun c => (c.id, c)).map (·.1)).Nodup := by
  obtain ⟨first, rest, hfirst⟩ := exists_first account board s
  have hids : ((newCards account board n s).map fun c => (c.id, c)).map (·.1) =
      (firstFree (Entries.keys (s.records account).cards) n).map toString := by
    rw [newCards_eq hfirst, samples, List.map_map, List.map_map]
    rfl
  rw [hids]
  refine List.nodup_append.2 ⟨hf.cards, ?_, ?_⟩
  · exact (nodup_firstFree _ _).map fun _ _ => Decimal.Numeral.toString_inj
  · rintro id hid _ hmem rfl
    obtain ⟨i, hi, rfl⟩ := List.mem_map.1 hmem
    exact (free_of_mem_firstFree hi).2 hid

/-- What is stored is stored behind what was there. -/
theorem apply_changes (hf : (s.records account).Filed)
    (hnumber : ∀ i, toString i ∈ Entries.keys (s.records account).stages →
      i < s.repository.nextStage) :
    (changes account board n s).foldl (fun r c => r.apply c) (s.records account) =
      recordsAfter account board n s := by
  have hstages := Entries.foldl_put_of_nodup _ (nodup_stages board hf hnumber)
  have hcards := Entries.foldl_put_of_nodup _ (nodup_cards board n hf)
  rw [List.foldl_map] at hstages hcards
  unfold changes recordsAfter
  rw [List.foldl_append, apply_stages, apply_cards, hstages, hcards]

theorem mem_starters {x : Stage} {i : Nat} {ds : List Stage.Draft} (h : x ∈ starters board i ds) :
    ∃ d ∈ ds, ∃ k, x = Storage.drafted board d k {} := by
  induction ds generalizing i with
  | nil => cases h
  | cons d ds ih =>
    rcases List.mem_cons.1 h with rfl | h
    · exact ⟨d, List.mem_cons_self, i, rfl⟩
    · obtain ⟨d', hd', hx⟩ := ih h
      exact ⟨d', List.mem_cons_of_mem _ hd', hx⟩

theorem mem_newStages {x : Stage} (h : x ∈ newStages account board s) :
    ∃ d ∈ Stage.defaults, ∃ k, x = Storage.drafted board d k {} := by
  unfold newStages at h
  split at h
  · exact mem_starters h
  · cases h

/-- What is stored can be found again. -/
theorem lasting_recordsAfter (hr : (s.records account).Lasting)
    (hnumber : ∀ i, toString i ∈ Entries.keys (s.records account).stages →
      i < s.repository.nextStage) (hboard : board.Keyed) (hw : Writable account board n s) :
    (recordsAfter account board n s).Lasting := by
  have hnew : ∀ x ∈ newStages account board s, x.Keyed := by
    intro x hx
    obtain ⟨d, hd, k, rfl⟩ := mem_newStages hx
    exact Work.keyed_drafted hboard (Stage.keyed_defaults d hd) k {}
  obtain ⟨first, rest, hfirst⟩ := exists_first account board s
  have hkey : first.key.Keyed := by
    have hmem : first ∈ boardStages account board s := hfirst ▸ List.mem_cons_self
    rcases List.mem_append.1 hmem with hmem | hmem
    · exact (hr.keyed.stages first (Storage.mem_stagesOf.1 hmem).1).key
    · exact (hnew first hmem).key
  rw [← apply_changes hr.filed hnumber]
  refine List.foldlRecOn _ _ hr fun r hr c hc => ?_
  rcases List.mem_append.1 hc with hc | hc
  · obtain ⟨x, hx, rfl⟩ := List.mem_map.1 hc
    -- one change for each new stage
    obtain ⟨d, -, k, hk⟩ := mem_newStages hx
    have hid : Readable x.id := ⟨k, congrArg Stage.id hk, hw.1 x hx⟩
    rw [Records.apply_stage]
    exact hr.putStage (hnew x hx) hid.numerable
  · obtain ⟨c', hc', rfl⟩ := List.mem_map.1 hc
    -- and one for each new card
    rw [newCards_eq hfirst] at hc'
    obtain ⟨k, -, rfl⟩ := List.mem_map.1 hc'
    rw [Records.apply_card]
    exact hr.putCard ⟨hboard, hkey, List.nodup_nil, trivial⟩

/-- The default stages are in order. -/
theorem byPosition_starters (board : Key) (i : Nat) :
    Stage.byPosition (starters board i Stage.defaults) = starters board i Stage.defaults :=
  Sorting.sort_of_climbs
    (by simp [starters, Stage.defaults, Sorting.Climbs, Stage.leftOf, Storage.drafted])

/-- The stages of a board that was given some are those from left to right. -/
theorem stagesOf_recordsAfter (account : String) (board : Key) (n : Nat) (s : Storage) :
    (recordsAfter account board n s).stagesOf board = boardStages account board s := by
  have hvalues : Entries.values (recordsAfter account board n s).stages =
      Entries.values (s.records account).stages ++ newStages account board s := by
    unfold recordsAfter Entries.values
    rw [List.map_append, List.map_map]
    exact congrArg _ (List.map_id _)
  have hboard : (newStages account board s).filter (fun x => decide (x.board = board)) =
      newStages account board s := by
    refine List.filter_eq_self.2 fun x hx => ?_
    obtain ⟨d, -, k, rfl⟩ := mem_newStages hx
    exact decide_eq_true rfl
  unfold Records.stagesOf boardStages
  rw [hvalues, List.filter_append, hboard]
  unfold newStages
  cases hstages : (s.records account).stagesOf board with
  | nil =>
    -- no stages by position means no stages
    have hnone : (Entries.values (s.records account).stages).filter
        (fun x => decide (x.board = board)) = [] := by
      have hperm := Stage.byPosition_perm
        ((Entries.values (s.records account).stages).filter fun x => decide (x.board = board))
      rw [show Stage.byPosition _ = [] from hstages] at hperm
      exact hperm.nil_eq.symm
    rw [hnone]
    exact byPosition_starters board _
  | cons first rest =>
    rw [if_neg (by simp), List.append_nil, List.append_nil]
    exact hstages

/-! ## Where everything has a text -/

theorem simple_drafted {d : Stage.Draft} (hd : d ∈ Stage.defaults) (board : String) (i : Nat) :
    Json.problem? Json.maxRecord (Storage.drafted (.text board) d i {}).toValue = none := by
  -- the default stages are few, and each is checked
  have hvalues : ∀ d ∈ Stage.defaults, ∀ v ∈ [d.key, d.name.given?.getD d.key,
      .whole (d.position.getD (Storage.nextPosition [])), d.color, d.icon],
      Json.problem? (Json.maxRecord - 1) v = none := by decide
  have hd := hvalues d hd
  simp only [List.forall_mem_cons] at hd
  obtain ⟨hkey, hname, hposition, hcolor, hicon, -⟩ := hd
  have hplace : Storage.nextPosition (Records.stagesOf (.text board) {}) =
      Storage.nextPosition [] := rfl
  unfold Stage.toValue Storage.drafted
  rw [Json.problem?, if_neg (by decide)]
  simp only [Json.problemEntries?, hplace, hkey, hname, hposition, hcolor, hicon, Option.none_or]
  rfl

/-- A sample card has a text if the stage has one that it is put into. -/
theorem simple_sample {x : Stage} (hx : Json.problem? Json.maxRecord x.toValue = none)
    (board : String) (i : Nat) :
    Json.problem? Json.maxRecord (sample (.text board) x.key (toString i)).toValue = none := by
  have hkey : Json.problem? (Json.maxRecord - 1) x.key = none := by
    unfold Stage.toValue at hx
    rw [Json.problem?, if_neg (by decide)] at hx
    simp only [Json.problemEntries?, Option.or_eq_none_iff] at hx
    exact hx.2.2.1
  unfold Card.toValue CardWith.toValueWith
  rw [Json.problem?, if_neg (by decide)]
  simp only [Json.problemEntries?, sample, hkey, Option.none_or]
  rfl

/-- Where the system lets files be written and the account has a text, a board can be seeded. -/
theorem exists_stored (board : String) (n : Nat) {f : Folder} (hf : s.folder = some f)
    (hlets : f.Lets (Snapshot.fileName account)) (hr : (s.records account).HasText) :
    ∃ u, Storage.storeAll account (changes account board n s) s = (.ok (), u) := by
  have hnew : ∀ x ∈ newStages account board s, Json.problem? Json.maxRecord x.toValue = none := by
    intro x hx
    obtain ⟨d, hd, i, rfl⟩ := mem_newStages hx
    exact simple_drafted hd board i
  obtain ⟨first, rest, hfirst⟩ := exists_first account board s
  -- the first stage was there before or is a new one
  have htext : Json.problem? Json.maxRecord first.toValue = none := by
    have hmem : first ∈ boardStages account board s := hfirst ▸ List.mem_cons_self
    rcases List.mem_append.1 hmem with hmem | hmem
    · exact hr.stages first (Storage.mem_stagesOf.1 hmem).1
    · exact hnew first hmem
  refine Storage.storeAll_ok hf hlets hr fun c hc => ?_
  rcases List.mem_append.1 hc with hc | hc
  · obtain ⟨x, hx, rfl⟩ := List.mem_map.1 hc
    exact .inl ⟨x, rfl, hnew x hx⟩
  · obtain ⟨k, hk, rfl⟩ := List.mem_map.1 hc
    rw [newCards_eq hfirst] at hk
    obtain ⟨i, -, rfl⟩ := List.mem_map.1 hk
    exact .inr ⟨_, rfl, simple_sample htext board i⟩

/-! ## The command -/

open CommandLine (Outcome)

variable {j : CommandLine.Job} {b : Option String} {m : Int} {now : Float} {f g : Folder}
  {r' : Records}

/-- The board that a command means. -/
def boardOf (j : CommandLine.Job) (b : Option String) : String := b.getD j.settings.defaultBoard

/-- What is printed once a board is seeded. -/
def report (board : String) (stages cards : Nat) : Outcome :=
  .success ["Board '" ++ board ++ "': " ++ toString stages ++ " stages, " ++ toString cards ++
    " cards added"]

/-- A command that seeds a board reads the account, and then seeds it. -/
theorem carryOut_seed (hj : j.command = .seed b m) (hdir : j.settings.dataDir.isSome) :
    j.carryOut now f =
      match Storage.use j.account { folder := some f.restore, stamp := now } with
      | (.error e, s) => ({ ending := .failed e }, s.folder.getD f)
      | (.ok (), s) =>
        match run j.account (boardOf j b) m.toNat s with
        | (.error e, t) => ({ ending := .failed e }, t.folder.getD f)
        | (.ok seeded, t) =>
          (report (boardOf j b) seeded.stages.length seeded.cards.length, t.folder.getD f) := by
  have hsome : j.settings.dataDir.isNone = false := by
    rw [← Option.not_isSome, hdir]
    rfl
  -- symbolic execution: the account is used, the board is seeded, the folder is handed on
  unfold CommandLine.Job.carryOut CommandLine.Job.onFolder CommandLine.Job.operation
  rw [hj]
  dsimp only
  rw [hsome, if_neg Bool.false_ne_true]
  unfold CommandLine.seed Server.use
  rw [bind_apply]
  unfold Server.onStorage
  dsimp only
  rcases Storage.use j.account { folder := some f.restore, stamp := now } with ⟨e | _, s⟩
  · rfl
  · dsimp only
    rw [bind_apply]
    dsimp only
    unfold boardOf
    rcases run j.account (.text (b.getD j.settings.defaultBoard)) m.toNat s with ⟨e | seeded, t⟩
    · rfl
    · rfl

/-- What seeding a board with sample cards does to the records of the account. -/
structure Adds (board : Key) (n : Nat) (r r' : Records) : Prop where
  /-- The cards are behind all that were there, under the first numbers that name none of them on
  any board, and in the first stage of the board. -/
  cards : ∃ first, (r'.stagesOf board).head? = some first ∧ r'.cards = r.cards ++
    (firstFree (Entries.keys r.cards) n).map fun i =>
      (toString i, sample board first.key (toString i))
  /-- No stage is changed or added if the board has one. -/
  kept : r.stagesOf board ≠ [] → r'.stages = r.stages
  /-- A board without stages is given the default ones, all active, behind all that were there. -/
  given : r.stagesOf board = [] → (r'.stagesOf board).map (·.key) = Stage.defaults.map (·.key) ∧
    (∀ x ∈ r'.stagesOf board, x.active = true) ∧
    r'.stages = r.stages ++ (r'.stagesOf board).map fun x => (x.id, x)

theorem adds_recordsAfter (account : String) (board : Key) (n : Nat) (s : Storage) :
    Adds board n (s.records account) (recordsAfter account board n s) := by
  have hstages := stagesOf_recordsAfter account board n s
  have hactive : ∀ d ∈ Stage.defaults, d.active = true := by decide
  obtain ⟨first, rest, hfirst⟩ := exists_first account board s
  refine ⟨⟨first, by rw [hstages, hfirst]; rfl, ?_⟩, fun hsome => ?_, fun hnone => ?_⟩
  · unfold recordsAfter
    rw [newCards_eq hfirst, samples, List.map_map]
    rfl
  · -- there were stages: none is new
    unfold recordsAfter newStages
    rw [if_neg (by simpa using hsome), List.map_nil, List.append_nil]
  · -- there were none: all are new, and all are active
    have hnew : boardStages account board s = newStages account board s := by
      rw [boardStages, hnone, List.nil_append]
    rw [hstages, hnew]
    refine ⟨?_, fun x hx => ?_, rfl⟩
    · unfold newStages
      rw [hnone]
      rfl
    · obtain ⟨d, hd, k, rfl⟩ := mem_newStages hx
      exact hactive d hd

/-- A board that has stages is seeded with no cards: nothing changes. -/
theorem run_none (h : (s.records account).stagesOf board ≠ []) :
    run account board 0 s = (.ok ⟨(s.records account).stagesOf board, []⟩, s) := by
  have hnew : newStages account board s = [] := if_neg (by simpa using h)
  obtain ⟨first, rest, hfirst⟩ := exists_first account board s
  have hcards : newCards account board 0 s = [] := newCards_eq hfirst 0
  refine run_ok_iff.2 ⟨⟨by simp [hnew], by simp [hcards]⟩, ?_, hcards.symm, s, ?_, ?_⟩
  · rw [boardStages, hnew, List.append_nil]
  · rw [changes, hnew, hcards]
    rfl
  · rw [hnew]
    rfl

/-- A command that has seeded a board: the folder holds what was there with as many cards more as
were asked for, and seeding the board again with no cards changes nothing. -/
def Exact (j : CommandLine.Job) (b : Option String) (n : Int) (now : Float) (f : Folder)
    (r : Records) : Prop :=
  ∃ r' g, Adds (boardOf j b) n.toNat r r' ∧ Storage.Holds j.account g r' ∧
    j.carryOut now f = (report (boardOf j b) (r'.stagesOf (boardOf j b)).length n.toNat, g) ∧
    ∀ m ≤ 0, ∀ now', ({ j with command := .seed b m } : CommandLine.Job).carryOut now' g =
      (report (boardOf j b) (r'.stagesOf (boardOf j b)).length 0, g)

/-- Where all that is to be stored was stored, the folder holds it. -/
theorem holds_recordsAfter
    (huse : Storage.use account { folder := some f.restore, stamp := now } = (.ok (), s))
    (hw : Writable account board n s) (hboard : board.Keyed)
    (hstore : Storage.storeAll account (changes account board n s) s = (.ok (), u)) :
    ∃ g, u.folder = some g ∧ g.restore = g ∧
      Storage.Holds account g (recordsAfter account board n s) := by
  obtain ⟨hlasting, hnumber, -, -⟩ := Storage.lasting_use huse
  have hbecame := Storage.became_storeAll hstore
  rw [apply_changes hlasting.filed hnumber] at hbecame
  obtain ⟨g, hg, hpresent, hholds⟩ :=
    hbecame.holds huse (lasting_recordsAfter hlasting hnumber hboard hw) rfl
  refine ⟨g, hg, ?_, hholds⟩
  -- a folder that is there is not changed by being restored
  obtain ⟨present, slots, refusals⟩ := g
  obtain rfl : present = true := hpresent
  rfl

/-- Where all that is to be stored was stored, the command says so. -/
theorem carryOut_of_stored (hj : j.command = .seed b m) (hdir : j.settings.dataDir.isSome)
    (huse : Storage.use j.account { folder := some f.restore, stamp := now } = (.ok (), s))
    (hw : Writable j.account (boardOf j b) m.toNat s)
    (hu : Storage.storeAll j.account (changes j.account (boardOf j b) m.toNat s) s = (.ok (), u))
    (hg : u.folder = some g) :
    j.carryOut now f =
      (report (boardOf j b) (boardStages j.account (boardOf j b) s).length m.toNat, g) := by
  have hok : run j.account (boardOf j b) m.toNat s =
      (.ok ⟨boardStages j.account (boardOf j b) s, newCards j.account (boardOf j b) m.toNat s⟩,
        u.numbered _) := run_ok_iff.2 ⟨hw, rfl, rfl, u, hu, rfl⟩
  have hfolder (i : Nat) : (u.numbered i).folder = some g := hg
  rw [carryOut_seed hj hdir, huse]
  dsimp only
  rw [hok]
  dsimp only
  rw [hfolder, length_newCards]
  rfl

/-- An id that cannot be written makes the command fail. -/
theorem failed_of_not_writable (hj : j.command = .seed b m) (hdir : j.settings.dataDir.isSome)
    (huse : Storage.use j.account { folder := some f.restore, stamp := now } = (.ok (), s))
    (hw : ¬ Writable j.account (boardOf j b) m.toNat s) :
    ∃ e, (j.carryOut now f).1.ending = .failed e := by
  rw [carryOut_seed hj hdir, huse]
  dsimp only
  rcases hseeded : run j.account (boardOf j b) m.toNat s with ⟨e | seeded, t⟩
  · exact ⟨e, rfl⟩
  · exact absurd (run_ok_iff.1 hseeded).1 hw

/-- A command that fails did not do what it is to do. -/
theorem not_exact_of_failed {e : Failure} (h : (j.carryOut now f).1.ending = .failed e) :
    ¬ Exact j b m now f r := by
  rintro ⟨r', g, -, -, hdone, -⟩
  rw [hdone] at h
  cases h

/-- For every account, board and number, a command that seeds the board comes to an end, and where
all that it is to store can be stored it does exactly what it is to do, unless an id that it draws
has more digits than can be written. -/
theorem seed_exact_iff (hj : j.command = .seed b m) (hdir : j.settings.dataDir.isSome)
    (huse : Storage.use j.account { folder := some f.restore, stamp := now } = (.ok (), s))
    (hstore : ∃ u, Storage.storeAll j.account (changes j.account (boardOf j b) m.toNat s) s =
      (.ok (), u)) :
    Exact j b m now f (s.records j.account) ↔ Writable j.account (boardOf j b) m.toNat s := by
  constructor
  · intro h
    by_contra hw
    obtain ⟨e, he⟩ := failed_of_not_writable hj hdir huse hw
    exact not_exact_of_failed he h
  · intro hw
    obtain ⟨u, hu⟩ := hstore
    obtain ⟨g, hg, hrestore, hholds⟩ := holds_recordsAfter huse hw trivial hu
    have hadds := adds_recordsAfter j.account (boardOf j b) m.toNat s
    have hstages := stagesOf_recordsAfter j.account (boardOf j b) m.toNat s
    refine ⟨_, g, hadds, hholds, ?_, fun k hk now' => ?_⟩
    · rw [carryOut_of_stored hj hdir huse hw hu hg, hstages]
    · obtain ⟨t, ht, hrecords⟩ := hholds now'
      have hsome : (t.records j.account).stagesOf (boardOf j b) ≠ [] := by
        rw [hrecords, hstages]
        obtain ⟨first, rest, hfirst⟩ := exists_first j.account (boardOf j b) s
        rw [hfirst]
        exact List.cons_ne_nil _ _
      have hfolder : t.folder = some g := (Storage.lasting_use ht).2.2.1
      have hagain : ({ j with command := .seed b k } : CommandLine.Job).carryOut now' g = _ :=
        carryOut_seed rfl hdir
      rw [hrestore, ht] at hagain
      dsimp only at hagain
      have hboard : boardOf { j with command := .seed b k } b = boardOf j b := rfl
      rw [hboard, Int.toNat_of_nonpos hk, run_none hsome] at hagain
      dsimp only at hagain
      rw [hagain, hfolder, hrecords]
      rfl

/-! ## Two accounts -/

/-- A folder with the snapshot of an account. -/
def folderOf (account : String) (r : Records) : Folder where
  slots := [(Snapshot.fileName account, .file (Storage.bytesOf account 0.0 r))]

theorem get?_folderOf (account : String) (r : Records) :
    (folderOf account r).restore.get? (Snapshot.fileName account) =
      some (.file (Storage.bytesOf account 0.0 r)) := by
  simp [folderOf, Folder.restore, Folder.get?, Entries.get?]

theorem lets_folderOf (account : String) (r : Records) :
    (folderOf account r).restore.Lets (Snapshot.fileName account) := by
  refine ⟨rfl, ?_, rfl⟩
  rw [get?_folderOf]
  exact nofun

/-- An account is read from such a folder. -/
theorem use_folderOf (hr : r.Lasting) (htext : r.HasText) (account : String) (now : Float) :
    ∃ s, Storage.use account { folder := some (folderOf account r).restore, stamp := now } =
      (.ok (), s) ∧ s.records account = r :=
  Storage.use_of_bytes hr.filed hr.keyed hr.numerable (htext.documentOf account 0.0)
    (get?_folderOf account r) now

/-- A command that gives a board some sample cards. -/
def seeding (account board : String) (n : Int) : CommandLine.Job where
  settings := { dataDir := some "data" }
  account := account
  command := .seed (some board) n

/-- An account with a card on each of two boards. -/
def gaps : Records where
  cards := [("1", ⟨"1", "sales", "in", 1.0, 0, []⟩), ("3", ⟨"3", "hr", "in", 2.0, 0, []⟩)]
  stages := [("7", { id := "7", board := "sales", key := "in", name := "In" })]

theorem lasting_gaps : gaps.Lasting := by
  refine ⟨⟨by decide, by decide, by decide, by decide⟩, ⟨?_, ?_⟩, ?_⟩
  · intro x hx
    obtain rfl := List.mem_singleton.1 hx
    exact ⟨trivial, trivial, trivial, trivial, trivial⟩
  · intro c hc
    rcases List.mem_cons.1 hc with rfl | hc
    · exact ⟨trivial, trivial, List.nodup_nil, trivial⟩
    · obtain rfl := List.mem_singleton.1 hc
      exact ⟨trivial, trivial, List.nodup_nil, trivial⟩
  · intro id hid
    obtain rfl := List.mem_singleton.1 hid
    exact Readable.numerable ⟨7, by decide, by decide⟩

/-- The first numbers that name no card are two and four. -/
theorem firstFree_gaps : firstFree (Entries.keys gaps.cards) 2 = [2, 4] := by
  rw [← freeFrom_one, ← freeFrom_of_not_free (by decide), freeFrom_of_free (by decide),
    ← freeFrom_of_not_free (by decide), freeFrom_of_free (by decide)]
  rfl

theorem writable_gaps {s : Storage} (hs : s.records "acme" = gaps) :
    Writable "acme" (.text "sales") 2 s := by
  have hstages : gaps.stagesOf (.text "sales") =
      [{ id := "7", board := "sales", key := "in", name := "In" }] := by decide
  refine writable_of_short (by rw [hs, hstages]; exact List.cons_ne_nil _ _) ?_
  rw [hs, firstFree_gaps, Short]
  decide

/-- Two sample cards get the ids that lie between those that are taken, on whatever board. -/
theorem seed_exact_gaps : ∃ s, Storage.use "acme"
      { folder := some (folderOf "acme" gaps).restore, stamp := 1.0 } = (.ok (), s) ∧
    s.records "acme" = gaps ∧
    Exact (seeding "acme" "sales" 2) (some "sales") 2 1.0 (folderOf "acme" gaps)
      (s.records "acme") := by
  have htext : gaps.HasText := ⟨by decide, by decide⟩
  obtain ⟨s, hs, hrecords⟩ := use_folderOf lasting_gaps htext "acme" 1.0
  have htext' : (s.records "acme").HasText := by
    rw [hrecords]
    exact htext
  obtain ⟨-, -, hfolder, -⟩ := Storage.lasting_use hs
  have hstore := exists_stored "sales" 2 hfolder (lets_folderOf "acme" gaps) htext'
  have hexact := seed_exact_iff (j := seeding "acme" "sales" 2) rfl rfl hs hstore
  exact ⟨s, hs, hrecords, hexact.2 (writable_gaps hrecords)⟩

/-- The greatest number that can be written. -/
def brim : Nat := 10 ^ Decimal.Numeral.maxDigits - 1

theorem succ_brim : brim + 1 = 10 ^ Decimal.Numeral.maxDigits :=
  Nat.sub_add_cancel (Nat.pow_pos (by decide))

theorem length_brim : (toString brim).length ≤ Decimal.Numeral.maxDigits := by
  rw [length_toString, Nat.length_toDigits_le_iff (by decide) (by decide), ← succ_brim]
  exact Nat.lt_add_one brim

/-- An account that has given a stage of another board the greatest number that can be written. -/
def brimful : Records where
  stages := [(toString brim, { id := toString brim, board := "hr", key := "in", name := "In" })]

theorem lasting_brimful : brimful.Lasting := by
  refine ⟨⟨List.nodup_nil, nofun, List.nodup_singleton _, ?_⟩, ⟨?_, nofun⟩, ?_⟩
  · intro e he
    obtain rfl := List.mem_singleton.1 he
    rfl
  · intro x hx
    obtain rfl := List.mem_singleton.1 hx
    exact ⟨trivial, trivial, trivial, trivial, trivial⟩
  · intro id hid
    obtain rfl := List.mem_singleton.1 hid
    exact Readable.numerable ⟨brim, rfl, length_brim⟩

theorem hasText_brimful : brimful.HasText := by
  refine ⟨fun x hx => ?_, nofun⟩
  obtain rfl := List.mem_singleton.1 hx
  rfl

/-- The system lets everything be written, and still the board gets neither stages nor cards: the
next stage would have a number that cannot be written. -/
theorem unseeded_brimful : ∃ s, Storage.use "acme"
      { folder := some (folderOf "acme" brimful).restore, stamp := 1.0 } = (.ok (), s) ∧
    s.records "acme" = brimful ∧
    (∃ u, Storage.storeAll "acme" (changes "acme" (.text "sales") 1 s) s = (.ok (), u)) ∧
    (∃ e,
      ((seeding "acme" "sales" 1).carryOut 1.0 (folderOf "acme" brimful)).1.ending = .failed e) ∧
    ¬ Exact (seeding "acme" "sales" 1) (some "sales") 1 1.0 (folderOf "acme" brimful)
      (s.records "acme") := by
  obtain ⟨s, hs, hrecords⟩ := use_folderOf lasting_brimful hasText_brimful "acme" 1.0
  have htext : (s.records "acme").HasText := by
    rw [hrecords]
    exact hasText_brimful
  obtain ⟨-, hnumber, hfolder, -⟩ := Storage.lasting_use hs
  have hstore := exists_stored "sales" 1 hfolder (lets_folderOf "acme" brimful) htext
  have hlong : ¬ Writable "acme" (.text "sales") 1 s := by
    intro hw
    have hbrim : brim < s.repository.nextStage := by
      refine hnumber brim ?_
      rw [hrecords]
      exact List.mem_singleton_self _
    have hnone : (s.records "acme").stagesOf (.text "sales") = [] := by
      rw [hrecords]
      rfl
    have hmem : ∃ x ∈ newStages "acme" (.text "sales") s,
        x.id = toString s.repository.nextStage := by
      rw [newStages, hnone]
      exact ⟨_, List.mem_cons_self, rfl⟩
    obtain ⟨x, hx, hid⟩ := hmem
    have hshort := hw.1 x hx
    rw [hid, length_toString, Nat.length_toDigits_le_iff (by decide) (by decide), ← succ_brim]
      at hshort
    exact absurd (Nat.le_of_lt_add_one hshort) (Nat.not_le.2 hbrim)
  obtain ⟨e, he⟩ := failed_of_not_writable (j := seeding "acme" "sales" 1) rfl rfl hs hlong
  exact ⟨s, hs, hrecords, hstore, ⟨e, he⟩, not_exact_of_failed he⟩

end Seeding

end Kanban
