import Kanban.Proofs.Storage.Mirror

/-!
# Kanban.Proofs.Storage.Salvage — a snapshot that cannot be read to its end

An account counts as used before its snapshot is read. Where the reading breaks off, what was read so
far stays in memory and the account is not read again: using it succeeds from then on, with the part
of its records that was salvaged. A refused write still leaves the file alone, but the first that
succeeds puts the salvaged part in its place, and what came behind the fault is gone.

* `Records.salvage` — what is taken over of a snapshot, as far as it can be read.
* `use_broken` — what is left when an account cannot be used.
* `Adrift`, `adrift_after`, `adrift_runAll` — what works do to such an account.
* `given_up` — a snapshot that could not be read is never read again, and does not come back.
-/

namespace Kanban

/-- What is read of some values before the first that cannot be read. -/
def Value.readWhile {α : Type} (read : Value → Except Fault α) : List Value → List α
  | [] => []
  | v :: vs =>
    match read v with
    | .ok a => a :: readWhile read vs
    | .error _ => []

/-- What is taken over of a snapshot: its stages and cards one by one, up to the first that cannot be
read. -/
def Records.salvage (data : Entries String Value) (r : Records) : Records :=
  match (data.getD "stages" (.list [])).items with
  | .error _ => r
  | .ok stages =>
    let r := (Value.readWhile Stage.ofValue stages).foldl (fun r x => r.putStage x) r
    if (Value.readWhile Stage.ofValue stages).length < stages.length then r
    else
      match (data.getD "cards" (.list [])).items with
      | .error _ => r
      | .ok cards => (Value.readWhile Card.ofValue cards).foldl (fun r c => r.putCard c) r

namespace Storage

open Operation

variable {account : String} {s t u : Storage} {e : Failure}

/-- The records of an account with what can be salvaged of its snapshot. -/
def salvaged (account : String) (s : Storage) : Records :=
  match s.folder.map (Snapshot.load account) with
  | some (.ok (some data)) => (s.records account).salvage data
  | _ => s.records account

theorem salvaged_of_load {data : Entries String Value}
    (h : s.folder.map (Snapshot.load account) = some (.ok (some data))) :
    s.salvaged account = (s.records account).salvage data := by
  unfold salvaged
  rw [h]

/-! ## Reading that breaks off -/

section

variable {α : Type} {f : Value → Op PUnit} {read : Value → Except Fault α}
  {put : α → Records → Records}

/-- What comes of a value that is read and put in memory. -/
def took (account : String) (put : α → Records → Records) (found : Except Fault α) (s : Storage) :
    Except Failure PUnit × Storage :=
  match found with
  | .ok a => (.ok ⟨⟩, s.withRecords account (put a (s.records account)))
  | .error x => (.error (.unreadable x), s)

/-- Values are read and put in memory one by one, all of them or those before the first that cannot be
read. -/
theorem forM_readWhile (hf : ∀ v t, f v t = took account put (read v) t) (l : List Value)
    (s : Storage) :
    (∃ e, (l.forM f) s = (.error e, s.stored account put (Value.readWhile read l)) ∧
        (Value.readWhile read l).length < l.length) ∨
      (l.forM f) s = (.ok ⟨⟩, s.stored account put (Value.readWhile read l)) ∧
        (Value.readWhile read l).length = l.length := by
  induction l generalizing s with
  | nil => exact .inr ⟨rfl, rfl⟩
  | cons v l ih =>
    have hcons : (v :: l).forM f = (do f v; l.forM f) := rfl
    rw [hcons, bind_apply, hf, Value.readWhile]
    cases read v with
    -- reading stops here, and what was read before is kept
    | error x => exact .inl ⟨_, rfl, Nat.succ_pos _⟩
    | ok a =>
      rcases ih (s.withRecords account (put a (s.records account))) with ⟨e, hl, hlt⟩ | ⟨hl, heq⟩
      · exact .inl ⟨e, hl, Nat.succ_lt_succ hlt⟩
      · exact .inr ⟨hl, congrArg Nat.succ heq⟩

end

theorem takeStage_eq (v : Value) (s : Storage) :
    takeStage account v s = took account Records.putStage (Stage.ofValue v) s := by
  unfold takeStage took
  rw [bind_apply, lift_apply]
  cases Stage.ofValue v <;> rfl

theorem takeCard_eq (v : Value) (s : Storage) :
    takeCard account v s = took account Records.putCard (Card.ofValue v) s := by
  unfold takeCard took
  rw [bind_apply, lift_apply]
  cases Card.ofValue v <;> rfl

/-- However far a snapshot can be read, what was read of it is in memory. -/
theorem records_takeOver (account : String) (data : Entries String Value) (s : Storage) :
    (takeOver account data s).2.records account = (s.records account).salvage data := by
  unfold takeOver Records.salvage
  rw [bind_apply, lift_apply]
  cases (data.getD "stages" (.list [])).items with
  | error x => rfl
  | ok stages =>
    simp only [Failure.ofReading, bind_apply]
    -- stages first: if one cannot be read, no card is looked at
    rcases forM_readWhile takeStage_eq stages s with ⟨e, hl, hlt⟩ | ⟨hl, heq⟩
    · rw [hl, if_pos hlt]
      exact records_stored _ s
    · rw [hl, if_neg (Nat.not_lt.2 (Nat.le_of_eq heq.symm)), ← records_stored _ s]
      generalize s.stored account Records.putStage (Value.readWhile Stage.ofValue stages) = t
      dsimp only
      rw [lift_apply]
      cases (data.getD "cards" (.list [])).items with
      | error x => rfl
      | ok cards =>
        simp only
        -- then cards, and the number of the next stage changes no records
        rcases forM_readWhile takeCard_eq cards t with ⟨e, hl, -⟩ | ⟨hl, -⟩
        · rw [hl]
          exact records_stored _ t
        · rw [hl, ← records_stored _ t]
          generalize t.stored account Records.putCard (Value.readWhile Card.ofValue cards) = u
          simp only [get_apply, lift_apply]
          cases hq : u.repository.renumber with
          | error x => rfl
          | ok q =>
            simp only [modify_apply]
            unfold Storage.records
            rw [Repository.renumber_eq hq]
            rfl

/-- An account whose snapshot cannot be read was not used before and counts as used afterwards, with
the records that were salvaged. -/
theorem use_broken (h : use account s = (.error e, t)) :
    s.repository.loaded.contains account = false ∧
      t.repository.loaded = account :: s.repository.loaded ∧ t.folder = s.folder ∧
      t.records account = s.salvaged account := by
  have hfresh : ¬ s.repository.loaded.contains account := by
    intro hl
    rw [use_of_loaded hl] at h
    cases h
  refine ⟨Bool.eq_false_iff.2 hfresh, ?_⟩
  rw [use_of_fresh hfresh] at h
  cases hf : s.folder with
  | none =>
    rw [hf] at h
    cases h
  | some f =>
    rw [hf] at h
    dsimp only at h
    simp only [salvaged, hf, Option.map_some]
    cases hl : Snapshot.load account f with
    | error e =>
      rw [hl] at h
      cases h
      exact ⟨rfl, hf, rfl⟩
    | ok found =>
      rw [hl] at h
      cases found with
      | none => cases h
      | some data =>
        dsimp only at h
        obtain rfl : (takeOver account data (s.marked account)).2 = t := congrArg Prod.snd h
        obtain ⟨hloaded, hfolder⟩ := framed_takeOver account data (s.marked account)
        exact ⟨hloaded, hfolder.trans hf, records_takeOver account data (s.marked account)⟩

/-! ## Works on what was salvaged -/

/-- An account that is used without its snapshot: as long as nothing is written the folder is what it
was, and then it holds what is in memory. -/
structure Adrift (account : String) (s : Storage) (r : Records) (lost : String → Prop) (t : Storage) :
    Prop where
  loaded : t.repository.loaded.contains account = true
  filed : (t.records account).Filed
  file : t.files = s.files ∧ t.records account = r ∨ ∃ now, t.files =
    s.files.map (Folder.hold (Snapshot.fileName account) (bytesOf account now (t.records account)))
  lost : ∀ id, lost id → (t.records account).card? id = none

variable {r : Records} {lost : String → Prop}

theorem Adrift.untouched (h : Adrift account s r lost t) (hu : t.Untouched u) :
    Adrift account s r lost u where
  loaded := by
    rw [hu.loaded]
    exact h.loaded
  filed := by
    rw [hu.records]
    exact h.filed
  file := by
    rw [hu.files, hu.records]
    exact h.file
  lost := by
    rw [hu.records]
    exact h.lost

theorem Adrift.written (h : Adrift account s r lost t) {r' : Records} (hw : t.Written account r' u)
    (hf : r'.Filed) (hl : ∀ id, lost id → r'.card? id = none) : Adrift account s r lost u where
  loaded := by
    rw [hw.loaded]
    exact h.loaded
  filed := by
    rw [hw.records_self]
    exact hf
  file := by
    rw [hw.files, hw.records_self]
    rcases h.file with ⟨hs, -⟩ | ⟨now, hs⟩
    · exact .inr ⟨_, by rw [hs]⟩
    · -- what the folder held before is written over
      refine .inr ⟨t.stamp, ?_⟩
      rw [hs, Option.map_map]
      congr 1
      funext f
      exact Folder.hold_hold _ _ _ f
  lost := by
    rw [hw.records_self]
    exact hl

end Storage

namespace Work

open Storage Operation

variable {account id : String} {s t : Storage} {r r' : Records} {w : Work} {now : Float}
  {lost : String → Prop}

/-- Whether the work stores a new card with an id. -/
def addsCard (id : String) : Work → Prop
  | .addCard c => c.id = id
  | _ => False

/-- No card comes to an account but by work that stores it. -/
theorem card?_edits (hf : r.Filed) (he : w.edits r r') (hc : r.card? id = none)
    (hw : ¬ w.addsCard id) : r'.card? id = none := by
  -- a card that is put in the place of one that was there is not the missing one
  have hput {i : String} {c d : Card} (hi : r.card? i = some c) (hd : d.id = c.id) :
      (r.putCard d).card? id = none := by
    rw [Records.card?_putCard, if_neg ?_]
    · exact hc
    · rintro rfl
      rw [hd, (hf.card_mem.1 hi).2, hi] at hc
      cases hc
  cases w with
  | seed board =>
    obtain ⟨d, -, n, -, rfl⟩ := he
    exact hc
  | addStage board d =>
    obtain ⟨n, -, rfl⟩ := he
    exact hc
  | setStageActive i active =>
    obtain ⟨stage, -, rfl⟩ := he
    exact hc
  | addCard c =>
    obtain ⟨-, rfl⟩ := he
    rw [Records.card?_putCard, if_neg fun h => hw h.symm]
    exact hc
  | removeCard i =>
    obtain rfl := he
    have herase : (r.dropCard i).card? id = if id = i then none else r.card? id :=
      Entries.get?_erase i id r.cards
    rw [herase, hc, ite_self]
  | setUnread i count =>
    obtain ⟨c, n, hi, rfl⟩ := he
    exact hput hi rfl
  | save i stage position =>
    obtain ⟨c, x, hi, -, rfl⟩ := he
    exact hput hi rfl
  | restage board source target =>
    obtain ⟨i, c, hi, -, rfl⟩ := he
    exact hput hi rfl

/-- No work reads the snapshot again, or brings back a card but by storing it anew. -/
theorem adrift_after (h : Adrift account s r lost t) (hw : ∀ id, lost id → ¬ w.addsCard id) :
    Adrift account s r lost (after account t (now, w)) := by
  have htimed : Adrift account s r lost (timed now t) := ⟨h.loaded, h.filed, h.file, h.lost⟩
  refine keeps (P := Adrift account s r lost) w account (fun _ _ h hu => h.untouched hu) ?_ htimed
  intro t u r' h he hwritten
  exact h.written hwritten (filed_edits h.filed he) fun id hid =>
    card?_edits h.filed he (h.lost id hid) (hw id hid)

theorem adrift_runAll {l : List (Float × Work)} (h : Adrift account s r lost t)
    (hl : ∀ p ∈ l, ∀ id, lost id → ¬ p.2.addsCard id) :
    Adrift account s r lost (runAll account l t) := by
  induction l generalizing t with
  | nil => exact h
  | cons p l ih =>
    exact ih (adrift_after h (hl p List.mem_cons_self))
      fun q hq => hl q (List.mem_cons_of_mem _ hq)

/-- A snapshot that could not be read is never read again. Whatever is done after the use that failed,
the account can be used; its file is the broken one only as long as nothing is stored, and then holds
what is in memory; and a card that was not salvaged is not in memory unless it is stored anew. -/
theorem given_up {e : Failure} (hf : (s.records account).Filed)
    (h : use account s = (.error e, t)) (l : List (Float × Work)) :
    s.repository.loaded.contains account = false ∧
      t.repository.loaded = account :: s.repository.loaded ∧
      t.records account = s.salvaged account ∧
      use account (runAll account l t) = (.ok (), runAll account l t) ∧
      ((runAll account l t).files = s.files ∧
          (runAll account l t).records account = s.salvaged account ∨
        ∃ now, (runAll account l t).files = s.files.map (Folder.hold (Snapshot.fileName account)
          (bytesOf account now ((runAll account l t).records account)))) ∧
      ∀ id, (s.salvaged account).card? id = none → (∀ p ∈ l, ¬ p.2.addsCard id) →
        ((runAll account l t).records account).card? id = none := by
  obtain ⟨hfresh, hloaded, hfolder, hrecords⟩ := use_broken h
  have hfiled : (t.records account).Filed := by
    have hkept : ((use account s).2.records account).Filed := filed_use hf
    rw [h] at hkept
    exact hkept
  -- from the failed load on, the account is adrift: in use, with what was salvaged
  have hadrift (lost : String → Prop) (hlost : ∀ id, lost id → (s.salvaged account).card? id = none) :
      Adrift account s (s.salvaged account) lost t := by
    refine ⟨?_, hfiled, .inl ⟨?_, hrecords⟩, hrecords ▸ hlost⟩
    · rw [hloaded]
      exact List.contains_iff_mem.2 List.mem_cons_self
    · unfold files
      rw [hfolder]
  have hrun := adrift_runAll (l := l) (hadrift (fun _ => False) fun _ => False.elim) fun _ _ _ => False.elim
  refine ⟨hfresh, hloaded, hrecords, use_of_loaded hrun.loaded, hrun.file, fun id hid hl => ?_⟩
  -- the same for one card alone: what does not add it again leaves it lost
  have hone := adrift_runAll (l := l) (hadrift (· = id) fun _ h => h ▸ hid) fun p hp i hi => hi ▸ hl p hp
  exact hone.lost id rfl

/-- A snapshot with two cards, of which the first names no stage. -/
def tornEntries : Entries String Value :=
  [("version", .whole 1), ("stages", .list []),
    ("cards", .list [.object [("card_id", .text "1")],
      .object [("card_id", .text "2"), ("stage_key", .text "new"), ("position", .real 2.0)]])]

/-- The storage of an account that has this snapshot. -/
def torn : Storage where
  folder := some { slots := [(Snapshot.fileName "acme",
    .file (Json.pretty (.object tornEntries)).toUTF8.toList)] }

theorem load_torn :
    torn.folder.map (Snapshot.load "acme") = some (.ok (some tornEntries)) := by
  have hk : (Value.object tornEntries).Keyed :=
    ⟨by decide, trivial, trivial, ⟨⟨by decide, trivial, trivial⟩,
      ⟨by decide, trivial, trivial, trivial, trivial⟩, trivial⟩, trivial⟩
  have hp : Json.problem? Json.maxWritten (.object tornEntries) = none := by decide +kernel
  have hvalue := Snapshot.valueOf_pretty hk hp
  simp only [torn, Option.map_some, Snapshot.load, Folder.get?, Entries.get?, if_true, hvalue]
  rfl

/-- Nothing is salvaged of it. -/
theorem salvaged_torn : torn.salvaged "acme" = {} := by
  rw [salvaged_of_load load_torn]
  rfl

theorem takeOver_torn (s : Storage) :
    takeOver "acme" tornEntries s = (.error (.unreadable (.missing (.text "stage_key"))), s) := rfl

theorem use_torn :
    use "acme" torn = (.error (.unreadable (.missing (.text "stage_key"))), torn.marked "acme") := by
  have hfresh : ¬ torn.repository.loaded.contains "acme" := by decide
  obtain ⟨f, hf, hload⟩ := Option.map_eq_some_iff.1 load_torn
  rw [use_of_fresh hfresh, hf]
  dsimp only
  rw [hload]
  exact takeOver_torn _

theorem given_up_torn : (torn.records "acme").Filed ∧
    (∃ e t, use "acme" torn = (.error e, t)) ∧
    ((runAll "acme" [(1.0, .seed "sales")] (torn.marked "acme")).records "acme").card? "2" = none := by
  have hf : (torn.records "acme").Filed := by constructor <;> decide
  obtain ⟨-, -, -, -, -, hlost⟩ := given_up hf use_torn [(1.0, .seed "sales")]
  refine ⟨hf, ⟨_, _, use_torn⟩, hlost "2" (by rw [salvaged_torn]; rfl) fun p hp => ?_⟩
  obtain rfl := List.mem_singleton.1 hp
  exact id

/-- A card that is stored after the use that failed. -/
def late : Card where
  id := "3"
  board := "sales"
  stage := "new"
  position := 1.0
  unread := 0
  attributes := []

/-- The snapshot with that card alone has a text. -/
theorem written_late :
    Json.problem? Json.maxWritten (documentOf "acme" 1.0 { cards := [("3", late)] }) = none := by
  decide +kernel

/-- The card is stored, and the snapshot with it takes the place of the file. -/
theorem late_stored : ∃ t f, (Work.addCard late).perform "acme" (timed 1.0 (torn.marked "acme")) =
      (.ok ⟨⟩, t) ∧ t.folder = some f ∧
    f.get? (Snapshot.fileName "acme") =
      some (.file (bytesOf "acme" 1.0 { cards := [("3", late)] })) := by
  have happly : ((timed 1.0 (torn.marked "acme")).records "acme").apply { cards := [late] } =
      { cards := [("3", late)] } := rfl
  have hp : Json.problem? Json.maxWritten (documentOf "acme" 1.0
      (((timed 1.0 (torn.marked "acme")).records "acme").apply { cards := [late] })) = none := by
    rw [happly]
    exact written_late
  have hr : Folder.refuses (Snapshot.fileName "acme") { slots := [(Snapshot.fileName "acme",
      .file (Json.pretty (.object tornEntries)).toUTF8.toList)] } = false := by
    simp [Folder.refuses, Folder.get?, Entries.get?]
  have hw := persist_written rfl hr hp
  have hnone : ((timed 1.0 (torn.marked "acme")).records "acme").card? late.id = none := rfl
  unfold perform Storage.addCard
  simp only [discard_apply, bind_apply, get_apply, hnone, Option.isSome_none, Bool.false_eq_true,
    if_false, hw]
  exact ⟨_, _, rfl, rfl, Folder.get?_write_self hr⟩

/-- The account is used a second time, a card is stored, and what a fresh repository then loads from
the folder lacks the second card of the snapshot, which could have been read. -/
theorem torn_overwritten : (∃ e, (use "acme" torn).1 = .error e) ∧
    (use "acme" (use "acme" torn).2).1 = .ok () ∧
    ∃ t u, (Work.addCard late).perform "acme" (timed 1.0 (use "acme" torn).2) = (.ok ⟨⟩, t) ∧
      use "acme" { folder := t.folder } = (.ok (), u) ∧ (u.records "acme").card? "2" = none := by
  obtain ⟨t, f, ht, hf, hbytes⟩ := late_stored
  have hfiled : ({ cards := [("3", late)] } : Records).Filed := by constructor <;> decide
  have hkeyed : ({ cards := [("3", late)] } : Records).Keyed := by
    refine ⟨fun _ h => (List.not_mem_nil h).elim, fun c hc => ?_⟩
    obtain rfl := List.mem_singleton.1 hc
    exact ⟨trivial, trivial, by decide, trivial⟩
  obtain ⟨u, hu, hrecords⟩ := use_of_bytes hfiled hkeyed
    (fun _ h => (List.not_mem_nil h).elim) written_late hbytes 0.0
  rw [use_torn]
  refine ⟨⟨_, rfl⟩, ?_, t, u, ht, hf ▸ hu, hrecords ▸ rfl⟩
  rw [use_of_loaded (s := torn.marked "acme") (by decide)]

end Work

end Kanban
