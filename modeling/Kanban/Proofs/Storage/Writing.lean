import Kanban.Proofs.Operation
import Kanban.Proofs.Server.Records

/-!
# Kanban.Proofs.Storage.Writing — changes that may be refused

A change of an account's records is written to its snapshot first, and the write may be refused. So
a single write comes to one of two things: nothing has changed, neither in memory nor in the folder,
or both hold the new records.

* `Untouched`, `Written` — what a write leaves.
* `persist_cases` — there is nothing in between.
* `place_outcome`, `addCard_once`, … — the operations that write once, and what they write.
-/

namespace Kanban

namespace Folder

/-- A folder, apart from what becomes of its next writes. -/
def contents (f : Folder) : Folder := { f with refusals := [] }

/-- A folder with the bytes of a file replaced. -/
def hold (name : String) (bytes : List UInt8) (f : Folder) : Folder :=
  { f with slots := Entries.put name (.file bytes) f.slots }

theorem hold_hold (name : String) (a b : List UInt8) (f : Folder) :
    (f.hold name a).hold name b = f.hold name b := by
  simp [hold, Entries.put_put]

theorem write_cases (name : String) (bytes : List UInt8) (f : Folder) :
    (∃ e g, f.write name bytes = (.error e, g) ∧ g.contents = f.contents) ∨
      ∃ g, f.write name bytes = (.ok (), g) ∧ g.contents = f.contents.hold name bytes := by
  unfold write
  split
  · exact .inl ⟨_, _, rfl, rfl⟩
  · exact .inr ⟨_, rfl, rfl⟩

end Folder

namespace Storage

open Operation

variable {account : String} {r r' : Records} {s t u : Storage} {α : Type}

/-- What is in the folder. -/
def files (s : Storage) : Option Folder := s.folder.map Folder.contents

/-- Records of an account as a snapshot. -/
def documentOf (account : String) (stamp : Float) (r : Records) : Value :=
  Snapshot.documentOf (.text account) stamp r.toData

/-- The bytes of the snapshot of an account. -/
def bytesOf (account : String) (stamp : Float) (r : Records) : List UInt8 :=
  (Json.pretty (documentOf account stamp r)).toUTF8.toList

/-- Storage on which nothing was stored; numbers of new stages may have been drawn. -/
structure Untouched (s t : Storage) : Prop where
  accounts : t.repository.accounts = s.repository.accounts
  loaded : t.repository.loaded = s.repository.loaded
  number : s.repository.nextStage ≤ t.repository.nextStage
  stamp : t.stamp = s.stamp
  files : t.files = s.files

/-- Storage on which records of one account were stored, in memory and in the folder. -/
structure Written (account : String) (r : Records) (s t : Storage) : Prop where
  accounts : t.repository.accounts = Entries.put account r s.repository.accounts
  loaded : t.repository.loaded = s.repository.loaded
  number : s.repository.nextStage ≤ t.repository.nextStage
  stamp : t.stamp = s.stamp
  files : t.files =
    s.files.map (Folder.hold (Snapshot.fileName account) (bytesOf account s.stamp r))
  /-- What is in the folder has a text. -/
  legible : s.files.isSome → Json.problem? Json.maxWritten (documentOf account s.stamp r) = none

theorem Untouched.refl (s : Storage) : s.Untouched s := ⟨rfl, rfl, Nat.le_refl _, rfl, rfl⟩

theorem Untouched.trans (h : s.Untouched t) (h' : t.Untouched u) : s.Untouched u :=
  ⟨h'.accounts.trans h.accounts, h'.loaded.trans h.loaded, Nat.le_trans h.number h'.number,
    h'.stamp.trans h.stamp, h'.files.trans h.files⟩

theorem Untouched.records (h : s.Untouched t) (a : String) : t.records a = s.records a := by
  unfold Storage.records Repository.records
  rw [h.accounts]

/-- Storing after numbers were drawn. -/
theorem Untouched.written (h : s.Untouched t) (h' : Written account r t u) :
    Written account r s u where
  accounts := h.accounts ▸ h'.accounts
  loaded := h'.loaded.trans h.loaded
  number := Nat.le_trans h.number h'.number
  stamp := h'.stamp.trans h.stamp
  files := by
    rw [h'.files, h.files, h.stamp]
  legible := by
    rw [← h.files, ← h.stamp]
    exact h'.legible

theorem Written.records_self (h : Written account r s t) : t.records account = r := by
  unfold Storage.records Repository.records
  rw [h.accounts, Entries.get?_put_self]
  rfl

theorem Written.records_of_ne (h : Written account r s t) {a : String} (ha : a ≠ account) :
    t.records a = s.records a := by
  unfold Storage.records Repository.records
  rw [h.accounts, Entries.get?_put_of_ne ha]

theorem Written.untouched (h : Written account r s t) (h' : t.Untouched u) :
    Written account r s u where
  accounts := h'.accounts.trans h.accounts
  loaded := h'.loaded.trans h.loaded
  number := Nat.le_trans h.number h'.number
  stamp := h'.stamp.trans h.stamp
  files := h'.files.trans h.files
  legible := h.legible

/-- Of records stored one after the other the last are stored. -/
theorem Written.trans (h : Written account r s t) (h' : Written account r' t u) :
    Written account r' s u where
  accounts := by rw [h'.accounts, h.accounts, Entries.put_put]
  loaded := h'.loaded.trans h.loaded
  number := Nat.le_trans h.number h'.number
  stamp := h'.stamp.trans h.stamp
  files := by
    -- the second snapshot overwrites the first
    rw [h'.files, h.files, h.stamp, Option.map_map]
    congr 1
    funext f
    exact Folder.hold_hold _ _ _ f
  legible := by
    intro hs
    have ht : t.files.isSome := by
      rw [h.files, Option.isSome_map]
      exact hs
    have hl := h'.legible ht
    rwa [h.stamp] at hl

/-! ## One write -/

/-- A change is stored, or it is refused and nothing is. -/
theorem persist_cases (account : String) (c : Change) (s : Storage) :
    (∃ e t, persist account c s = (.error e, t) ∧ s.Untouched t) ∨
      ∃ t, persist account c s = (.ok (), t) ∧
        s.Written account ((s.records account).apply c) t := by
  unfold persist
  cases hf : s.folder with
  | none =>
    refine .inr ⟨_, rfl, rfl, rfl, Nat.le_refl _, rfl, ?_, ?_⟩
    · simp [files, hf]
    · simp [files, hf]
  | some f =>
    have hfiles : s.files = some f.contents := by rw [files, hf, Option.map_some]
    unfold Snapshot.save
    cases hp : Json.problem? Json.maxWritten (documentOf account s.stamp
        ((s.records account).apply c)) with
    | some p =>
      -- what has no text is not written
      simp only [show Json.problem? Json.maxWritten (Snapshot.documentOf (.text account) s.stamp
        ((s.records account).apply c).toData) = some p from hp]
      exact .inl ⟨_, _, rfl, rfl, rfl, Nat.le_refl _, rfl, hfiles ▸ rfl⟩
    | none =>
      simp only [show Json.problem? Json.maxWritten (Snapshot.documentOf (.text account) s.stamp
        ((s.records account).apply c).toData) = none from hp, Value.shown_text]
      rcases f.write_cases (Snapshot.fileName account)
          (Snapshot.textOf (.text account) s.stamp
            ((s.records account).apply c).toData).toUTF8.toList with ⟨e, g, hw, hg⟩ | ⟨g, hw, hg⟩
      · rw [hw]
        refine .inl ⟨e, _, rfl, rfl, rfl, Nat.le_refl _, rfl, ?_⟩
        rw [hfiles, files, Option.map_some, hg]
      · rw [hw]
        refine .inr ⟨_, rfl, rfl, rfl, Nat.le_refl _, rfl, ?_, fun _ => hp⟩
        rw [hfiles, files, Option.map_some, hg]
        rfl

/-- What was stored without an error is in memory and in the folder. -/
theorem written_persist {account : String} {c : Change} {s t : Storage}
    (h : persist account c s = (.ok (), t)) :
    s.Written account ((s.records account).apply c) t := by
  rcases persist_cases account c s with ⟨e, u, hu, -⟩ | ⟨u, hu, hwritten⟩
  · rw [h] at hu
    cases hu
  · obtain rfl : t = u := congrArg Prod.snd (h.symm.trans hu)
    exact hwritten

/-- A change is stored if its snapshot has a text and the write is not refused. -/
theorem persist_written {account : String} {c : Change} {f : Folder} (hf : s.folder = some f)
    (hr : f.refuses (Snapshot.fileName account) = false)
    (hp : Json.problem? Json.maxWritten
      (documentOf account s.stamp ((s.records account).apply c)) = none) :
    persist account c s = (.ok (), { s with
      repository := s.repository.setRecords account ((s.records account).apply c)
      folder := some (f.write (Snapshot.fileName account)
        (bytesOf account s.stamp ((s.records account).apply c))).2 }) := by
  -- the snapshot has a text, and the folder takes it
  unfold documentOf at hp
  unfold persist Snapshot.save
  simp only [hf, hp, Value.shown_text]
  unfold bytesOf documentOf Snapshot.textOf Folder.write
  rw [hr]
  rfl

/-- A change is not stored if the system refuses the next write. -/
theorem persist_refused {account : String} {c : Change} {f : Folder} (hf : s.folder = some f)
    (hr : f.refusals.headD false = true) : ∃ e, (persist account c s).1 = .error e := by
  unfold persist Snapshot.save
  simp only [hf]
  cases Json.problem? Json.maxWritten (Snapshot.documentOf (.text account) s.stamp
      ((s.records account).apply c).toData) with
  -- there is no text to write
  | some p => exact ⟨_, rfl⟩
  | none =>
    have hall : f.refuses (Snapshot.fileName account) = true := by
      unfold Folder.refuses
      rw [hr, Bool.or_true]
    simp only [Value.shown_text, Folder.write, hall, if_true]
    exact ⟨_, rfl⟩

/-- What an operation came to that writes at most once: nothing was stored, or it succeeded and
stored new records of the account, as `E` describes them. -/
def Once (account : String) (E : Records → Prop) (s : Storage) (x : Except Failure α × Storage) :
    Prop :=
  s.Untouched x.2 ∨ (∃ a, x.1 = .ok a) ∧ ∃ r, E r ∧ s.Written account r x.2

/-- An operation that fails and writes at most once has stored nothing. -/
theorem Once.untouched {E : Records → Prop} {x : Except Failure α × Storage}
    (h : Once account E s x) {e : Failure} (he : x.1 = .error e) : s.Untouched x.2 := by
  rcases h with h | ⟨⟨a, ha⟩, -⟩
  · exact h
  · rw [he] at ha
    cases ha

/-- A change followed by an answer writes once. -/
theorem persist_once (account : String) (c : Change) (a : α) (s : Storage) :
    Once account (· = (s.records account).apply c) s
      ((do persist account c; pure a : Op α) s) := by
  rw [bind_apply]
  rcases persist_cases account c s with ⟨e, t, hp, ht⟩ | ⟨t, hp, ht⟩
  · rw [hp]
    exact .inl ht
  · rw [hp]
    exact .inr ⟨⟨a, rfl⟩, _, rfl, ht⟩

end Storage

namespace Records

variable {r : Records}

/-- The records without a card. -/
def dropCard (id : String) (r : Records) : Records := { r with cards := Entries.erase id r.cards }

theorem apply_removed (id : String) (r : Records) : r.apply { removed := [id] } = r.dropCard id := by
  simp [apply, dropCard, Entries.erase]

theorem filed_dropCard (h : r.Filed) (id : String) : (r.dropCard id).Filed where
  cards := Entries.nodup_erase h.cards id
  cardIds := fun e he => h.cardIds e (List.mem_of_mem_filter he)
  stages := h.stages
  stageIds := h.stageIds

end Records

namespace Storage

open Operation

variable {s : Storage}

/-! ## Cards -/

theorem addCard_once (account : String) (c : Card) (s : Storage) :
    Once account (fun r => (s.records account).card? c.id = none ∧
      r = (s.records account).putCard c) s (addCard account c s) := by
  unfold addCard
  rw [bind_apply, get_apply]
  dsimp only
  cases hc : (s.records account).card? c.id with
  | some d => exact .inl (.refl s)
  | none =>
    rcases persist_once account { cards := [c] } c s with h | ⟨ha, r, rfl, hw⟩
    · exact .inl h
    · exact .inr ⟨ha, _, ⟨rfl, Records.apply_card c _⟩, hw⟩

theorem removeCard_once (account id : String) (s : Storage) :
    Once account (· = (s.records account).dropCard id) s (removeCard account id s) := by
  unfold removeCard
  rw [bind_apply, get_apply]
  dsimp only
  split
  · exact .inl (.refl s)
  · rcases persist_once account { removed := [id] } true s with h | ⟨ha, r, rfl, hw⟩
    · exact .inl h
    · exact .inr ⟨ha, _, Records.apply_removed id _, hw⟩

theorem setUnread_once (account id : String) (count : Value) (s : Storage) :
    Once account (fun r => ∃ c n, (s.records account).card? id = some c ∧
      r = (s.records account).putCard { c with unread := n }) s (setUnread account id count s) := by
  unfold setUnread card
  rw [bind_apply, bind_apply, get_apply]
  dsimp only
  cases hc : (s.records account).card? id with
  | none => exact .inl (.refl s)
  | some c =>
    simp only [pure_apply]
    rw [bind_apply, lift_apply]
    cases hn : Failure.ofReading count.toWhole with
    | error e => exact .inl (.refl s)
    | ok n =>
      rcases persist_once account { cards := [{ c with unread := max 0 n }] }
        { c with unread := max 0 n } s with h | ⟨ha, r, rfl, hw⟩
      · exact .inl h
      · exact .inr ⟨ha, _, ⟨c, _, rfl, Records.apply_card _ _⟩, hw⟩

/-- Placing a card stores nothing, or the card with its stage and position, where the stage is open
on the board of the card and the position is a number. -/
theorem place_outcome (account id : String) (stage : Key) (position : Value) (s : Storage) :
    (∃ e t, place account id stage position s = (.error e, t) ∧ s.Untouched t) ∨
      ∃ c x t, (s.records account).card? id = some c ∧
        (s.records account).isOpen c.board stage ∧ checkPosition position = .ok x ∧
        place account id stage position s = (.ok { c with stage, position := x }, t) ∧
        s.Written account ((s.records account).putCard { c with stage, position := x }) t := by
  unfold place
  rw [bind_apply, lift_apply]
  cases hx : checkPosition position with
  | error e => exact .inl ⟨e, s, rfl, .refl s⟩
  | ok x =>
    -- every check is made before anything is written
    simp only [bind_apply, get_apply]
    cases hc : (s.records account).card? id with
    | none => exact .inl ⟨_, s, rfl, .refl s⟩
    | some c =>
      cases ho : (s.records account).activeStage? c.board stage with
      | none => exact .inl ⟨.closedStage stage c.board, s, by simp only [ho]; rfl, .refl s⟩
      | some _ =>
        simp only [ho, Option.isNone_some, Bool.false_eq_true, if_false, pure_apply, bind_apply]
        rcases persist_cases account { cards := [{ c with stage, position := x }] } s with
          ⟨e, t, hp, ht⟩ | ⟨t, hp, ht⟩
        · rw [hp]
          exact .inl ⟨e, t, rfl, ht⟩
        · rw [hp]
          rw [Records.apply_card] at ht
          exact .inr ⟨c, x, t, rfl, by simp [Records.isOpen, ho], rfl, rfl, ht⟩

/-! ## Stages -/

/-- The stage that a draft becomes on a board, as the one with a number. -/
def drafted (board : Key) (d : Stage.Draft) (number : Nat) (r : Records) : Stage where
  id := toString number
  board := board
  key := d.key
  name := d.name.given?.getD d.key
  position := d.position.getD (nextPosition (r.stagesOf board))
  active := d.active
  color := d.color
  icon := d.icon

/-- The storage with the number of a new stage drawn. -/
def drawn (s : Storage) : Storage :=
  { s with repository := { s.repository with nextStage := s.repository.nextStage + 1 } }

theorem untouched_drawn (s : Storage) : s.Untouched s.drawn :=
  ⟨rfl, rfl, Nat.le_succ _, rfl, rfl⟩

/-- A stage is stored under a number of its own, if its key is new on the board and the number is
one that can be read. -/
theorem addStage_outcome (account : String) (board : Key) (d : Stage.Draft) (s : Storage) :
    s.Untouched (addStage account board d s).2 ∨
      ((s.records account).stagesOf board).all (·.key ≠ d.key) ∧
        (toString s.repository.nextStage).length ≤ Decimal.Numeral.maxDigits ∧
        (addStage account board d s).1 =
          .ok (drafted board d s.repository.nextStage (s.records account)) ∧
        s.drawn.Written account
          ((s.records account).putStage (drafted board d s.repository.nextStage (s.records account)))
          (addStage account board d s).2 := by
  unfold addStage
  rw [bind_apply, get_apply]
  dsimp only
  rw [unless_apply]
  split
  · exact .inl (.refl s)
  · rename_i hk
    rw [bind_apply, set_apply]
    dsimp only
    rw [unless_apply]
    split
    · -- the number has too many digits: it is drawn, and nothing is written
      exact .inl (untouched_drawn s)
    · rename_i hd
      rw [bind_apply]
      rcases persist_cases account
          { stages := [drafted board d s.repository.nextStage (s.records account)] } s.drawn with
        ⟨e, t, hp, ht⟩ | ⟨t, hp, ht⟩
      · -- the write is refused, and the number stays drawn
        refine .inl ((untouched_drawn s).trans ?_)
        have hrun := hp
        unfold drafted drawn at hrun
        rw [hrun]
        exact ht
      · rw [Records.apply_stage] at ht
        have hrun := hp
        unfold drafted drawn at hrun
        rw [hrun]
        exact .inr ⟨by simpa using hk, Nat.le_of_not_lt hd, rfl, ht⟩

theorem setStageActive_once (account id : String) (active : Bool) (s : Storage) :
    Once account (fun r => ∃ stage, (s.records account).stage? id = some stage ∧
      r = (s.records account).putStage { stage with active }) s
      (setStageActive account id active s) := by
  unfold setStageActive stage
  rw [bind_apply, bind_apply, get_apply]
  dsimp only
  cases hs : (s.records account).stage? id with
  | none => exact .inl (.refl s)
  | some stage =>
    simp only [pure_apply]
    rcases persist_once account { stages := [{ stage with active }] } { stage with active } s with
      h | ⟨ha, r, rfl, hw⟩
    · exact .inl h
    · exact .inr ⟨ha, _, ⟨stage, rfl, Records.apply_stage _ _⟩, hw⟩

end Storage

end Kanban
