import Mathlib.Data.Nat.Nth
import Kanban.Proofs.Server.Housing
import Kanban.Proofs.Storage.Rereading
import Kanban.Seeding

/-!
# Kanban.Proofs.Seeding.Steps — what is stored while a board is seeded

A board that has no stages is given the default ones, and then the numbers from one on are tried,
each of which either names a card or becomes the id of one. Both loops come to the same: they
succeed exactly if what they are to store has ids that can be written and can be stored, one after
the other. It can be stored where the system lets files be written and nothing is nested too deeply.

* `Records.HasText` — records that can be written; `Storage.storeAll_ok` — that they are.
* `Storage.storeAll` — storing one after the other; `Storage.became_storeAll` — what is left then.
* `Free`, `freeFrom` — the numbers that become ids.
* `fill_ok_iff` — the search for ids, by recursion along it.
* `addStages_ok_iff` — the default stages, one by one.
-/

namespace Kanban

open Operation

/-! ## Records that have a text -/

namespace Json

/-- How deeply the stages and cards of a snapshot may be nested. -/
def maxRecord : Nat := maxWritten - 2

theorem problemItems?_eq_none {d : Nat} {vs : List Value} (h : ∀ v ∈ vs, problem? d v = none) :
    problemItems? d vs = none := by
  induction vs with
  | nil => rfl
  | cons v vs ih =>
    obtain ⟨hv, hvs⟩ := List.forall_mem_cons.1 h
    rw [problemItems?, hv, ih hvs]
    rfl

end Json

namespace Records

variable {r : Records}

/-- Nothing keeps the stages and cards from being written. -/
structure HasText (r : Records) : Prop where
  stages : ∀ x ∈ Entries.values r.stages, Json.problem? Json.maxRecord x.toValue = none
  cards : ∀ c ∈ Entries.values r.cards, Json.problem? Json.maxRecord c.toValue = none

theorem HasText.putStage (h : r.HasText) {x : Stage}
    (hx : Json.problem? Json.maxRecord x.toValue = none) : (r.putStage x).HasText where
  stages := fun y hy => (Entries.mem_values_of_put hy).elim (h.stages y) fun heq => heq ▸ hx
  cards := h.cards

theorem HasText.putCard (h : r.HasText) {c : Card}
    (hc : Json.problem? Json.maxRecord c.toValue = none) : (r.putCard c).HasText where
  stages := h.stages
  cards := fun d hd => (Entries.mem_values_of_put hd).elim (h.cards d) fun heq => heq ▸ hc

theorem HasText.documentOf (h : r.HasText) (account : String) (stamp : Float) :
    Json.problem? Json.maxWritten (Storage.documentOf account stamp r) = none := by
  have hstages : Json.problemItems? Json.maxRecord ((Entries.values r.stages).map Stage.toValue) =
      none := Json.problemItems?_eq_none (List.forall_mem_map.2 h.stages)
  have hcards : Json.problemItems? Json.maxRecord ((Entries.values r.cards).map Card.toValue) =
      none := Json.problemItems?_eq_none (List.forall_mem_map.2 h.cards)
  have hversion : Json.problem? (Json.maxWritten - 1) (.whole Snapshot.version) = none := by decide
  have hdepth : Json.maxWritten - 1 - 1 = Json.maxRecord := rfl
  rw [Snapshot.documentOf_eq, Snapshot.entriesOf, Json.problem?, if_neg (by decide)]
  simp only [Json.problemEntries?, hversion, Option.none_or]
  simp only [Json.problem?, hdepth, hstages, hcards, Option.none_or, Option.or_none]
  rfl

end Records

/-- The system lets a file be written, now and later. -/
structure Folder.Lets (name : String) (f : Folder) : Prop where
  present : f.present = true
  free : f.get? name ≠ some .folder
  willing : f.refusals = []

namespace Storage

variable {account : String} {s t u : Storage} {c : Change} {cs : List Change} {r : Records}
  {f : Folder}

/-! ## Storing one by one -/

/-- Store changes one by one. -/
def storeAll (account : String) (cs : List Change) : Op Unit := cs.forM (persist account)

theorem storeAll_cons_ok : storeAll account (c :: cs) s = (.ok (), u) ↔
    ∃ t, persist account c s = (.ok (), t) ∧ storeAll account cs t = (.ok (), u) := by
  have hcons : storeAll account (c :: cs) s =
      (do persist account c; storeAll account cs : Op Unit) s := rfl
  rw [hcons, bind_apply]
  rcases persist account c s with ⟨e | _, t⟩
  · exact ⟨nofun, fun ⟨_, h, _⟩ => nomatch h⟩
  · refine ⟨fun h => ⟨t, rfl, h⟩, fun ⟨t', ht, h⟩ => ?_⟩
    obtain rfl : t = t' := congrArg Prod.snd ht
    exact h

theorem storeAll_append_ok {cs' : List Change} : storeAll account (cs ++ cs') s = (.ok (), u) ↔
    ∃ t, storeAll account cs s = (.ok (), t) ∧ storeAll account cs' t = (.ok (), u) := by
  induction cs generalizing s with
  | nil =>
    refine ⟨fun h => ⟨s, rfl, h⟩, fun ⟨t, ht, h⟩ => ?_⟩
    obtain rfl : s = t := congrArg Prod.snd ht
    exact h
  | cons c cs ih =>
    rw [List.cons_append, storeAll_cons_ok]
    simp only [ih, storeAll_cons_ok]
    exact ⟨fun ⟨a, ha, b, hb, h⟩ => ⟨b, ⟨a, ha, hb⟩, h⟩,
      fun ⟨b, ⟨a, ha, hb⟩, h⟩ => ⟨a, ha, b, hb, h⟩⟩

/-- Changes that were stored one by one are in memory and in the folder. -/
theorem became_storeAll (h : storeAll account cs s = (.ok (), t)) :
    Became account (cs.foldl (fun r c => r.apply c) (s.records account)) s t := by
  induction cs generalizing s with
  | nil =>
    obtain rfl : s = t := congrArg Prod.snd h
    exact became_refl account s
  | cons c cs ih =>
    obtain ⟨v, hv, h⟩ := storeAll_cons_ok.1 h
    have hwritten := written_persist hv
    have hrest := ih h
    rw [hwritten.records_self] at hrest
    exact .inr (hwritten.became hrest)

/-- A stage or a card that has a text. -/
def Simple (c : Change) : Prop :=
  (∃ x : Stage, c = { stages := [x] } ∧ Json.problem? Json.maxRecord x.toValue = none) ∨
    ∃ k : Card, c = { cards := [k] } ∧ Json.problem? Json.maxRecord k.toValue = none

/-- Where the system lets files be written and everything has a text, all can be stored. -/
theorem storeAll_ok (hf : s.folder = some f) (hlets : f.Lets (Snapshot.fileName account))
    (hr : (s.records account).HasText) (hcs : ∀ c ∈ cs, Simple c) :
    ∃ u, storeAll account cs s = (.ok (), u) := by
  induction cs generalizing s f with
  | nil => exact ⟨s, rfl⟩
  | cons c cs ih =>
    obtain ⟨hc, hcs⟩ := List.forall_mem_cons.1 hcs
    -- a change that has a text keeps a text for the whole snapshot
    have hnext : ((s.records account).apply c).HasText := by
      rcases hc with ⟨x, rfl, hx⟩ | ⟨k, rfl, hk⟩
      · rw [Records.apply_stage]
        exact hr.putStage hx
      · rw [Records.apply_card]
        exact hr.putCard hk
    have hopen : f.refuses (Snapshot.fileName account) = false := by
      have hfree : (f.get? (Snapshot.fileName account) == some .folder) = false := by
        simpa using hlets.free
      simp [Folder.refuses, hlets.present, hlets.willing, hfree]
    have hstored := persist_written hf hopen (hnext.documentOf account s.stamp)
    -- the folder lets the next write through as well
    have hlets' : (f.write (Snapshot.fileName account) (bytesOf account s.stamp
        ((s.records account).apply c))).2.Lets (Snapshot.fileName account) := by
      refine ⟨?_, ?_, ?_⟩
      · simp [Folder.write, hopen, hlets.present]
      · simp [Folder.get?_write_self hopen]
      · simp [Folder.write, hopen, hlets.willing]
    have hrecords := (written_persist hstored).records_self
    obtain ⟨u, hu⟩ := ih rfl hlets' (hrecords ▸ hnext) hcs
    exact ⟨u, storeAll_cons_ok.2 ⟨_, hstored, hu⟩⟩

/-- Storage with another number for the next new stage. -/
def numbered (n : Nat) (s : Storage) : Storage :=
  { s with repository := { s.repository with nextStage := n } }

/-- What is stored does not depend on the number of the next new stage. -/
theorem persist_numbered (account : String) (c : Change) (n : Nat) (s : Storage) :
    persist account c (s.numbered n) =
      ((persist account c s).1, (persist account c s).2.numbered n) := by
  -- the number of the next stage goes into no snapshot
  have hrecords : (s.numbered n).records account = s.records account := rfl
  have hfolder : (s.numbered n).folder = s.folder := rfl
  have hstamp : (s.numbered n).stamp = s.stamp := rfl
  unfold persist
  rw [hrecords, hfolder, hstamp]
  cases s.folder with
  | none => rfl
  | some f =>
    dsimp only
    rcases Snapshot.save (.text account) s.stamp ((s.records account).apply c).toData f with
      ⟨e | _, g⟩ <;> rfl

theorem storeAll_numbered (account : String) (cs : List Change) (n : Nat) (s : Storage) :
    storeAll account cs (s.numbered n) =
      ((storeAll account cs s).1, (storeAll account cs s).2.numbered n) := by
  induction cs generalizing s with
  | nil => rfl
  | cons c cs ih =>
    have hcons (s : Storage) : storeAll account (c :: cs) s =
        (do persist account c; storeAll account cs : Op Unit) s := rfl
    rw [hcons, hcons, bind_apply, bind_apply, persist_numbered]
    rcases persist account c s with ⟨e | _, t⟩
    · rfl
    · exact ih t

theorem storeAll_numbered_ok {n : Nat} : storeAll account cs (s.numbered n) = (.ok (), u) ↔
    ∃ t, storeAll account cs s = (.ok (), t) ∧ u = t.numbered n := by
  rw [storeAll_numbered]
  rcases storeAll account cs s with ⟨e | _, t⟩
  · exact ⟨nofun, fun ⟨_, h, _⟩ => nomatch h⟩
  · refine ⟨fun h => ⟨t, rfl, (congrArg Prod.snd h).symm⟩, fun ⟨t', ht, h⟩ => ?_⟩
    cases ht
    rw [h]

end Storage

namespace Seeding

variable {account : String} {board stage : Key} {used : List String} {n i k : Nat}
  {s t : Storage}

/-! ## Free numbers -/

/-- A number from one on whose numeral is not in use. -/
def Free (used : List String) (i : Nat) : Prop := 0 < i ∧ toString i ∉ used

instance (used : List String) : DecidablePred (Free used) := fun _ =>
  inferInstanceAs (Decidable (_ ∧ _))

theorem infinite_free (used : List String) : (Set.ofPred (Free used)).Infinite := by
  have hused : {i : Nat | toString i ∈ used}.Finite :=
    used.toFinset.finite_toSet.preimage (fun _ _ _ _ => Decimal.Numeral.toString_inj) |>.subset
      fun i hi => by simpa using hi
  refine ((Set.Ioi_infinite 0).sdiff hused).mono fun i hi => ?_
  exact ⟨hi.1, hi.2⟩

/-- The first free numbers. -/
noncomputable def firstFree (used : List String) (n : Nat) : List Nat :=
  (List.range n).map (Nat.nth (Free used))

/-- The first free numbers from a number on. -/
noncomputable def freeFrom (used : List String) (i n : Nat) : List Nat :=
  (List.range n).map fun k => Nat.nth (Free used) (Nat.count (Free used) i + k)

theorem freeFrom_one (used : List String) (n : Nat) : freeFrom used 1 n = firstFree used n := by
  have hcount : Nat.count (Free used) 1 = 0 := by
    rw [Nat.count_one, if_neg fun h => Nat.lt_irrefl 0 h.1]
  unfold freeFrom firstFree
  simp only [hcount, Nat.zero_add]

theorem freeFrom_of_free (h : Free used i) (n : Nat) :
    freeFrom used i (n + 1) = i :: freeFrom used (i + 1) n := by
  unfold freeFrom
  rw [List.range_succ_eq_map, List.map_cons, List.map_map, Nat.add_zero, Nat.nth_count h,
    Nat.count_succ, if_pos h]
  refine congrArg (i :: ·) (List.map_congr_left fun k _ => ?_)
  rw [Function.comp_apply, Nat.succ_eq_add_one, Nat.add_assoc, Nat.add_comm 1 k]

theorem freeFrom_of_not_free (h : ¬ Free used i) (n : Nat) :
    freeFrom used (i + 1) n = freeFrom used i n := by
  unfold freeFrom
  rw [Nat.count_succ, if_neg h, Nat.add_zero]

theorem le_of_mem_freeFrom (h : k ∈ freeFrom used i n) : i ≤ k := by
  obtain ⟨j, -, rfl⟩ := List.mem_map.1 h
  exact (Nat.count_le_iff_le_nth (infinite_free used)).1 (Nat.le_add_right _ _)

theorem free_of_mem_firstFree (h : k ∈ firstFree used n) : Free used k := by
  obtain ⟨j, -, rfl⟩ := List.mem_map.1 h
  exact Nat.nth_mem_of_infinite (infinite_free used) j

theorem nodup_firstFree (used : List String) (n : Nat) : (firstFree used n).Nodup :=
  List.nodup_range.map (Nat.nth_injective (infinite_free used))

theorem length_toString (i : Nat) : (toString i).length = (Nat.toDigits 10 i).length := by
  rw [← Decimal.Numeral.toList_toString, String.length_toList]

/-- A number has at least as many digits as any below it. -/
theorem length_toString_mono (h : i ≤ k) : (toString i).length ≤ (toString k).length := by
  have hpos : 0 < (Nat.toDigits 10 k).length := Nat.length_toDigits_pos
  rw [length_toString, length_toString, Nat.length_toDigits_le_iff (by decide) hpos]
  exact h.trans_lt ((Nat.length_toDigits_le_iff (by decide) hpos).1 (le_refl _))

/-! ## Cards -/

/-- The sample cards with some numbers as their ids. -/
def samples (board stage : Key) (numbers : List Nat) : List Card :=
  numbers.map fun k => sample board stage (toString k)

/-- A card with an id of its own is stored. -/
theorem addCard_ok_iff {c d : Card} (hc : (s.records account).card? c.id = none) :
    Storage.addCard account c s = (.ok d, t) ↔
      d = c ∧ Storage.persist account { cards := [c] } s = (.ok (), t) := by
  unfold Storage.addCard
  simp only [bind_apply, get_apply, hc, Option.isSome_none, Bool.false_eq_true, if_false]
  rcases Storage.persist account { cards := [c] } s with ⟨e | _, u⟩
  · exact ⟨nofun, fun ⟨_, h⟩ => nomatch h⟩
  · refine ⟨fun h => ?_, fun ⟨hd, h⟩ => ?_⟩
    · cases h
      exact ⟨rfl, rfl⟩
    · cases h
      rw [hd]
      rfl

/-- Numbers can be written if all numerals are short enough. -/
def Short (numbers : List Nat) : Prop :=
  ∀ k ∈ numbers, (toString k).length ≤ Decimal.Numeral.maxDigits

/-- All that a search is to store from a free number on, as what comes first and what comes then. -/
theorem stores_of_free {cards : List Card} (hfree : Free used i)
    (hshort : (toString i).length ≤ Decimal.Numeral.maxDigits) :
    (Short (freeFrom used i (n + 1)) ∧ cards = samples board stage (freeFrom used i (n + 1)) ∧
        Storage.storeAll account (cards.map fun c => { cards := [c] }) s = (.ok (), t)) ↔
      ∃ u rest, cards = sample board stage (toString i) :: rest ∧
        Storage.persist account { cards := [sample board stage (toString i)] } s = (.ok (), u) ∧
        Short (freeFrom used (i + 1) n) ∧ rest = samples board stage (freeFrom used (i + 1) n) ∧
          Storage.storeAll account (rest.map fun c => { cards := [c] }) u = (.ok (), t) := by
  -- the first free number is taken, and the search goes on behind it
  rw [freeFrom_of_free hfree]
  constructor
  · rintro ⟨hall, rfl, hstore⟩
    obtain ⟨u, hu, hrest⟩ := Storage.storeAll_cons_ok.1 hstore
    exact ⟨u, _, rfl, hu, fun k hk => hall k (List.mem_cons_of_mem _ hk), rfl, hrest⟩
  · rintro ⟨u, _, rfl, hu, hall, rfl, hrest⟩
    exact ⟨List.forall_mem_cons.2 ⟨hshort, hall⟩, rfl, Storage.storeAll_cons_ok.2 ⟨u, hu, hrest⟩⟩

theorem card?_isSome {id : String} {r : Records} :
    (r.card? id).isSome = true ↔ id ∈ Entries.keys r.cards := by
  rw [Option.isSome_iff_ne_none, ne_eq, Records.card?, Entries.get?_eq_none_iff, not_not]

/-- The card under a free number does not get in the way of the numbers behind it. -/
theorem keys_of_stored (hkeys : ∀ k, i ≤ k →
      (toString k ∈ Entries.keys (s.records account).cards ↔ toString k ∈ used))
    (h : Storage.persist account { cards := [sample board stage (toString i)] } s = (.ok (), t))
    (hk : i + 1 ≤ k) :
    toString k ∈ Entries.keys (t.records account).cards ↔ toString k ∈ used := by
  have hne : toString k ≠ toString i := fun heq =>
    Nat.ne_of_gt hk (Decimal.Numeral.toString_inj heq)
  have hput : Entries.keys ((s.records account).putCard (sample board stage (toString i))).cards =
      Entries.keys (Entries.put (toString i) (sample board stage (toString i))
        (s.records account).cards) := rfl
  rw [(Storage.written_persist h).records_self, Records.apply_card, hput, Entries.mem_keys_put,
    or_iff_right hne]
  exact hkeys k (Nat.le_of_succ_le hk)

/-- A search that has come to a number succeeds exactly if the free numbers from there on can be
written and the sample cards under them can be stored; and these it stores. -/
theorem fill_ok_iff {cards : List Card} (hi : 0 < i)
    (hkeys : ∀ k, i ≤ k →
      (toString k ∈ Entries.keys (s.records account).cards ↔ toString k ∈ used)) :
    fill account board stage n i s = (.ok cards, t) ↔
      Short (freeFrom used i n) ∧ cards = samples board stage (freeFrom used i n) ∧
        Storage.storeAll account (cards.map fun c => { cards := [c] }) s = (.ok (), t) := by
  have hfree {s : Storage} {i : Nat} (hi : 0 < i) (hkeys : ∀ k, i ≤ k →
      (toString k ∈ Entries.keys (s.records account).cards ↔ toString k ∈ used))
      (hcard : ¬ ((s.records account).card? (toString i)).isSome) : Free used i :=
    ⟨hi, fun h => hcard (card?_isSome.2 ((hkeys i (le_refl i)).2 h))⟩
  fun_induction fill account board stage n i s generalizing cards t with
  | case1 i s =>
    refine ⟨fun h => ?_, fun ⟨_, hcards, h⟩ => ?_⟩
    · cases h
      exact ⟨nofun, rfl, rfl⟩
    · obtain rfl : cards = [] := hcards
      obtain rfl : s = t := congrArg Prod.snd h
      rfl
  | case2 i s n hlong =>
    -- the next free number is at least as long
    refine ⟨nofun, fun ⟨hall, _⟩ => ?_⟩
    have hmem : Nat.nth (Free used) (Nat.count (Free used) i + 0) ∈ freeFrom used i (n + 1) :=
      List.mem_map_of_mem (List.mem_range.2 (Nat.succ_pos n))
    exact absurd (hall _ hmem)
      (Nat.not_le.2 (hlong.trans_le (length_toString_mono (le_of_mem_freeFrom hmem))))
  | case3 i s n hshort hcard ih =>
    have hnot : ¬ Free used i := fun h => h.2 ((hkeys i (le_refl i)).1 (card?_isSome.1 hcard))
    refine (ih (Nat.succ_pos i) fun k hk => hkeys k (Nat.le_of_succ_le hk)).trans ?_
    rw [freeFrom_of_not_free hnot]
  | case4 i s n hshort hcard e u hadd =>
    have hnone := Option.not_isSome_iff_eq_none.1 hcard
    rw [stores_of_free (hfree hi hkeys hcard) (Nat.not_lt.1 hshort)]
    refine ⟨nofun, fun ⟨v, _, _, hv, _⟩ => ?_⟩
    rw [(addCard_ok_iff hnone).2 ⟨rfl, hv⟩] at hadd
    cases hadd
  | case5 i s n hshort hcard c u hadd e v hfill ih =>
    obtain ⟨rfl, hu⟩ := (addCard_ok_iff (Option.not_isSome_iff_eq_none.1 hcard)).1 hadd
    rw [stores_of_free (hfree hi hkeys hcard) (Nat.not_lt.1 hshort)]
    refine ⟨nofun, fun ⟨u', rest, _, hu', hrest⟩ => ?_⟩
    obtain rfl : u = u' := congrArg Prod.snd (hu.symm.trans hu')
    rw [(ih (Nat.succ_pos i) fun k => keys_of_stored hkeys hu).2 hrest] at hfill
    cases hfill
  | case6 i s n hshort hcard c u hadd rest v hfill ih =>
    obtain ⟨rfl, hu⟩ := (addCard_ok_iff (Option.not_isSome_iff_eq_none.1 hcard)).1 hadd
    have ih' := fun rest t => @ih t rest (Nat.succ_pos i) fun k => keys_of_stored hkeys hu
    rw [stores_of_free (hfree hi hkeys hcard) (Nat.not_lt.1 hshort)]
    constructor
    · intro h
      cases h
      exact ⟨u, rest, rfl, hu, (ih' rest v).1 hfill⟩
    · rintro ⟨u', rest', rfl, hu', hrest⟩
      obtain rfl : u = u' := congrArg Prod.snd (hu.symm.trans hu')
      have hsame := hfill.symm.trans ((ih' rest' t).2 hrest)
      cases hsame
      rfl

/-! ## Stages -/

/-- The stages that drafts become on a board, with the numbers from one on as their ids. -/
def starters (board : Key) : Nat → List Stage.Draft → List Stage
  | _, [] => []
  | i, d :: ds => Storage.drafted board d i {} :: starters board (i + 1) ds

theorem id_starters (board : Key) (i : Nat) (ds : List Stage.Draft) :
    (starters board i ds).map (·.id) = (List.range' i ds.length).map toString := by
  induction ds generalizing i with
  | nil => rfl
  | cons d ds ih => exact congrArg (toString i :: ·) (ih (i + 1))

/-- A draft with a position becomes the same stage on any board. -/
theorem drafted_eq {d : Stage.Draft} (hd : d.position.isSome) (board : Key) (i : Nat)
    (r : Records) : Storage.drafted board d i r = Storage.drafted board d i {} := by
  obtain ⟨p, hp⟩ := Option.isSome_iff_exists.1 hd
  unfold Storage.drafted
  rw [hp]
  rfl

/-- A draft whose key is new on the board is stored if its number can be written. -/
theorem addStage_ok_iff {d : Stage.Draft} {x : Stage} (hd : d.position.isSome)
    (hkey : ∀ y ∈ (s.records account).stagesOf board, y.key ≠ d.key) :
    Storage.addStage account board d s = (.ok x, t) ↔
      (toString s.repository.nextStage).length ≤ Decimal.Numeral.maxDigits ∧
        x = Storage.drafted board d s.repository.nextStage {} ∧
        ∃ u, Storage.persist account { stages := [x] } s = (.ok (), u) ∧
          t = u.numbered (s.repository.nextStage + 1) := by
  have hany : ((s.records account).stagesOf board).any (fun y => decide (y.key = d.key)) = false := by
    simpa using hkey
  have hrun : Storage.addStage account board d s =
      if Decimal.Numeral.maxDigits < (toString s.repository.nextStage).length then
        (.error (.unreadable .malformed), s.numbered (s.repository.nextStage + 1))
      else (do
        Storage.persist account
          { stages := [Storage.drafted board d s.repository.nextStage (s.records account)] }
        pure (Storage.drafted board d s.repository.nextStage (s.records account)) : Storage.Op Stage)
          (s.numbered (s.repository.nextStage + 1)) := by
    unfold Storage.addStage
    rw [bind_apply, get_apply]
    dsimp only
    rw [unless_apply, hany, if_neg Bool.false_ne_true, bind_apply, set_apply]
    dsimp only
    rw [unless_apply]
    rfl
  rw [hrun, drafted_eq hd]
  split
  · -- no number is written that is too long to be read
    rename_i hlong
    exact ⟨nofun, fun ⟨hshort, _⟩ => absurd hshort (Nat.not_le.2 hlong)⟩
  · rename_i hshort
    rw [bind_apply, Storage.persist_numbered]
    rcases hp : Storage.persist account
      { stages := [Storage.drafted board d s.repository.nextStage {}] } s with ⟨e | _, u⟩
    · refine ⟨nofun, fun ⟨_, hx, v, hv, _⟩ => ?_⟩
      rw [hx, hp] at hv
      cases hv
    · constructor
      · intro h
        cases h
        exact ⟨Nat.not_lt.1 hshort, rfl, u, hp, rfl⟩
      · rintro ⟨-, rfl, v, hv, rfl⟩
        obtain rfl : u = v := congrArg Prod.snd (hp.symm.trans hv)
        rfl

theorem mem_stagesOf_putStage {r : Records} {x y : Stage}
    (h : y ∈ (r.putStage x).stagesOf board) : y ∈ r.stagesOf board ∨ y = x := by
  obtain ⟨hy, hb⟩ := Storage.mem_stagesOf.1 h
  exact (Entries.mem_values_of_put hy).imp_left fun hy => Storage.mem_stagesOf.2 ⟨hy, hb⟩

/-- Drafts with different keys that are all new on a board are stored one after the other if their
numbers can be written. -/
theorem addStages_ok_iff {ds : List Stage.Draft} {xs : List Stage}
    (hds : ∀ d ∈ ds, d.position.isSome) (hkeys : (ds.map (·.key)).Nodup)
    (hnew : ∀ y ∈ (s.records account).stagesOf board, ∀ d ∈ ds, y.key ≠ d.key) :
    ds.mapM (Storage.addStage account board) s = (.ok xs, t) ↔
      Short (List.range' s.repository.nextStage ds.length) ∧
        xs = starters board s.repository.nextStage ds ∧
        ∃ u, Storage.storeAll account (xs.map fun x => { stages := [x] }) s = (.ok (), u) ∧
          t = u.numbered (s.repository.nextStage + ds.length) := by
  induction ds generalizing s xs with
  | nil =>
    constructor
    · intro h
      cases h
      exact ⟨nofun, rfl, _, rfl, rfl⟩
    · rintro ⟨-, rfl, u, hu, rfl⟩
      cases hu
      rfl
  | cons d ds ih =>
    have hd := List.forall_mem_cons.1 hds
    obtain ⟨hkey, hkeys⟩ := List.nodup_cons.1 hkeys
    have hadd {x : Stage} {v : Storage} := addStage_ok_iff (x := x) (t := v) hd.1 fun y hy =>
      hnew y hy d List.mem_cons_self
    -- the new stage does not have the key of a later draft
    have hnew' {v : Storage} (hv : Storage.persist account
        { stages := [Storage.drafted board d s.repository.nextStage {}] } s = (.ok (), v)) :
        ∀ y ∈ ((v.numbered (s.repository.nextStage + 1)).records account).stagesOf board,
          ∀ d' ∈ ds, y.key ≠ d'.key := by
      intro y hy d' hd'
      have hrecords : (v.numbered (s.repository.nextStage + 1)).records account =
          (s.records account).putStage (Storage.drafted board d s.repository.nextStage {}) :=
        (Storage.written_persist hv).records_self.trans (Records.apply_stage _ _)
      rw [hrecords] at hy
      rcases mem_stagesOf_putStage hy with hy | rfl
      · exact hnew y hy d' (List.mem_cons_of_mem _ hd')
      · exact fun heq => hkey (List.mem_map.2 ⟨d', hd', heq.symm⟩)
    have hnext : s.repository.nextStage + 1 + ds.length =
        s.repository.nextStage + (ds.length + 1) := Nat.add_right_comm _ _ _
    rw [List.mapM_cons, bind_ok_iff, List.length_cons, List.range'_succ]
    constructor
    · rintro ⟨x, v, hx, h⟩
      obtain ⟨hshort, rfl, u, hu, rfl⟩ := hadd.1 hx
      obtain ⟨xs', w, hxs', h⟩ := bind_ok_iff.1 h
      cases h
      obtain ⟨hall, rfl, u', hu', rfl⟩ := (ih hd.2 hkeys (hnew' hu)).1 hxs'
      obtain ⟨w, hw, rfl⟩ := Storage.storeAll_numbered_ok.1 hu'
      refine ⟨List.forall_mem_cons.2 ⟨hshort, hall⟩, rfl, w,
        Storage.storeAll_cons_ok.2 ⟨u, hu, hw⟩, ?_⟩
      exact congrArg (Storage.numbered · w) hnext
    · rintro ⟨hshort, rfl, w, hw, rfl⟩
      obtain ⟨hshort, hall⟩ := List.forall_mem_cons.1 hshort
      obtain ⟨u, hu, hw⟩ := Storage.storeAll_cons_ok.1 hw
      refine ⟨_, _, hadd.2 ⟨hshort, rfl, u, hu, rfl⟩, bind_ok_iff.2 ⟨_, _, (ih hd.2 hkeys
        (hnew' hu)).2 ⟨hall, rfl, _, Storage.storeAll_numbered_ok.2 ⟨w, hw, rfl⟩, ?_⟩, rfl⟩⟩
      exact congrArg (Storage.numbered · w) hnext.symm

end Seeding

end Kanban
