import Kanban.Card
import Kanban.Stage
import Kanban.Snapshot

/-!
# Kanban.Repository — the records of accounts

The cards and stages of every account, in memory and, if there is a folder, in snapshots. An
account's snapshot is read when the account is first used. Every change is written first and
takes effect in memory only once it is written; a refused write leaves the records as they
were.

Changing operations keep their state when they fail: what was written before the failure
stays.

* `cardsIn_mem` — what the cards of a stage are.
-/

namespace Kanban

/-- The cards and stages of one account, in the order they were first stored. -/
structure Records where
  cards : Entries String Card := []
  stages : Entries String Stage := []
  deriving DecidableEq

/-- Records to be stored and cards to be dropped. -/
structure Change where
  cards : List Card := []
  stages : List Stage := []
  removed : List String := []

namespace Records

/-- The records after a change. -/
def apply (c : Change) (r : Records) : Records where
  cards := c.cards.foldl (fun m x => Entries.put x.id x m)
    (r.cards.filter fun e => !c.removed.contains e.1)
  stages := c.stages.foldl (fun m x => Entries.put x.id x m) r.stages

/-- The card with an id. -/
def card? (id : String) (r : Records) : Option Card := Entries.get? id r.cards

/-- The stage with an id. -/
def stage? (id : String) (r : Records) : Option Stage := Entries.get? id r.stages

/-- The stages of a board from left to right. -/
def stagesOf (board : Key) (r : Records) : List Stage :=
  Stage.byPosition ((Entries.values r.stages).filter fun s => s.board = board)

/-- The active stages of a board from left to right. -/
def activeStages (board : Key) (r : Records) : List Stage :=
  Stage.byPosition ((Entries.values r.stages).filter fun s => s.board = board && s.active)

/-- The stages of a board, all or the active ones. -/
def stagesBy (activeOnly : Bool) (board : Key) (r : Records) : List Stage :=
  if activeOnly then r.activeStages board else r.stagesOf board

/-- The active stage of a board with a key. -/
def activeStage? (board key : Key) (r : Records) : Option Stage :=
  (r.activeStages board).find? fun s => s.key = key

/-- The first active stage of a board apart from some. -/
def defaultStage? (board : Key) (exclude : List String) (r : Records) : Option Stage :=
  (r.activeStages board).find? fun s => !exclude.contains s.id

/-- The cards of a stage by position. -/
def cardsIn (board stage : Key) (r : Records) : List Card :=
  Card.byPosition ((Entries.values r.cards).filter fun c => c.board = board && c.stage = stage)

/-- What the cards of a stage are. -/
theorem cardsIn_mem {board stage : Key} {r : Records} {c : Card} :
    c ∈ r.cardsIn board stage ↔ c ∈ Entries.values r.cards ∧ c.board = board ∧ c.stage = stage := by
  unfold cardsIn Card.byPosition
  rw [(Sorting.sort_perm _ _).mem_iff]
  simp

/-- The records as snapshot data. -/
def toData (r : Records) : Entries String Value :=
  [("stages", .list ((Entries.values r.stages).map Stage.toValue)),
   ("cards", .list ((Entries.values r.cards).map Card.toValue))]

end Records

/-- The records of all accounts in memory. -/
structure Repository where
  accounts : Entries String Records := []
  /-- The accounts whose snapshot was read. -/
  loaded : List String := []
  /-- The number of the next new stage. -/
  nextStage : Nat := 1

namespace Repository

/-- The records of an account. -/
def records (account : String) (r : Repository) : Records :=
  (Entries.get? account r.accounts).getD {}

/-- The repository with the records of an account replaced. -/
def setRecords (account : String) (a : Records) (r : Repository) : Repository :=
  { r with accounts := Entries.put account a r.accounts }

@[simp] theorem records_setRecords_self (account : String) (a : Records) (r : Repository) :
    (r.setRecords account a).records account = a := by
  simp [records, setRecords]

theorem records_setRecords_of_ne {account other : String} (h : other ≠ account) (a : Records)
    (r : Repository) : (r.setRecords account a).records other = r.records other := by
  simp [records, setRecords, Entries.get?_put_of_ne h]

/-- The number that a stage id denotes, if it consists of digits. -/
def stageNumber (id : String) : Except Fault (Option Nat) :=
  if id ≠ "" ∧ id.toList.all Text.isDigitSign then
    (fun n => some n.toNat) <$> (Value.text id).toWhole
  else .ok none

/-- The ids of all stages of all accounts. -/
def stageIds (r : Repository) : List String :=
  (Entries.values r.accounts).flatMap fun a => Entries.keys a.stages

/-- Number new stages after all that have a number. -/
def renumber (r : Repository) : Except Fault Repository := do
  let numbers ← r.stageIds.mapM stageNumber
  pure { r with nextStage := (numbers.filterMap id).foldl max 0 + 1 }

end Repository

/-- A repository and the folder of its snapshots, if there is one. -/
structure Storage where
  repository : Repository := {}
  folder : Option Folder := none
  /-- The time that snapshots are marked with. -/
  stamp : Float := 0.0

/-- An operation on storage. It may fail, and what it did before it failed stays done. -/
abbrev Storage.Op (α : Type) := ExceptT Failure (StateM Storage) α

namespace Storage

/-- The records of an account. -/
def records (account : String) (s : Storage) : Records := s.repository.records account

/-- Store a change: in the snapshot first, then in memory. -/
def persist (account : String) (c : Change) : Op Unit := fun s =>
  let next := (s.records account).apply c
  let kept := { s with repository := s.repository.setRecords account next }
  match s.folder with
  | none => (.ok (), kept)
  | some f =>
    match Snapshot.save (.text account) s.stamp next.toData f with
    | (.ok (), f) => (.ok (), { kept with folder := some f })
    | (.error e, f) => (.error e, { s with folder := some f })

/-- Change the records of an account in memory only. -/
def modifyRecords (account : String) (f : Records → Records) : Op Unit :=
  modify fun s =>
    { s with repository := s.repository.setRecords account (f (s.records account)) }

/-- Take over a stage of a snapshot. -/
def takeStage (account : String) (v : Value) : Op Unit := do
  let stage ← Failure.ofReading (Stage.ofValue v)
  modifyRecords account fun r => { r with stages := Entries.put stage.id stage r.stages }

/-- Take over a card of a snapshot. -/
def takeCard (account : String) (v : Value) : Op Unit := do
  let card ← Failure.ofReading (Card.ofValue v)
  modifyRecords account fun r => { r with cards := Entries.put card.id card r.cards }

/-- Take over the stages and cards of a snapshot one by one. -/
def takeOver (account : String) (data : Entries String Value) : Op Unit := do
  (← Failure.ofReading (data.getD "stages" (.list [])).items).forM (takeStage account)
  (← Failure.ofReading (data.getD "cards" (.list [])).items).forM (takeCard account)
  let r ← Failure.ofReading (← get).repository.renumber
  modify fun s => { s with repository := r }

/-- Use an account: its snapshot is read the first time. -/
def use (account : String) : Op Unit := do
  let s ← get
  if s.repository.loaded.contains account then return
  -- it counts as read from now on, even if reading it fails
  set { s with repository := { s.repository with loaded := account :: s.repository.loaded } }
  match s.folder with
  | none => return
  | some f =>
    match ← Snapshot.load account f with
    | none => return
    | some data => takeOver account data

/-- The card with an id, which has to be there. -/
def card (account id : String) : Op Card := do
  match ((← get).records account).card? id with
  | some c => pure c
  | none => throw (.unknownCard id)

/-- The stage with an id, which has to be there. -/
def stage (account id : String) : Op Stage := do
  match ((← get).records account).stage? id with
  | some s => pure s
  | none => throw (.unknownStage id)

/-- Store a new card. -/
def addCard (account : String) (c : Card) : Op Card := do
  if (((← get).records account).card? c.id).isSome then throw (.takenCard c.id)
  persist account { cards := [c] }
  pure c

/-- Drop a card; tells whether there was one. -/
def removeCard (account id : String) : Op Bool := do
  if (((← get).records account).card? id).isNone then return false
  persist account { removed := [id] }
  pure true

/-- Set the count of unread messages of a card. -/
def setUnread (account id : String) (count : Value) : Op Card := do
  let c ← card account id
  let n ← Failure.ofReading count.toWhole
  let c := { c with unread := max 0 n }
  persist account { cards := [c] }
  pure c

/-- Move cards that are still in the stage to another stage of the board, one by one. -/
def restageAll (account : String) (source target : Key) : List String → Op (List String)
  | [] => pure []
  | id :: rest => do
    -- the list was made before the first card was moved, so each is looked up again
    match ((← get).records account).card? id with
    | none => restageAll account source target rest
    | some c =>
      if c.stage ≠ source then restageAll account source target rest
      else
        persist account { cards := [{ c with stage := target }] }
        return id :: (← restageAll account source target rest)

/-- Move all cards of a stage to another stage of the board; positions stay. -/
def restage (account : String) (board source target : Key) : Op (List String) := do
  let cards := ((← get).records account).cardsIn board source
  restageAll account source target (cards.map (·.id))

/-- A position that can be stored. -/
def checkPosition (v : Value) : Except Failure Float :=
  match v.toReal with
  | .ok x => if Decimal.isFinite x then .ok x else .error .endlessPosition
  | .error .tooLarge => .error (.unreadable .tooLarge)
  | .error _ => .error (.oddPosition v)

/-- Store the stage and position of a card together. -/
def place (account id : String) (stage : Key) (position : Value) : Op Card := do
  let x ← checkPosition position
  let r := (← get).records account
  match r.card? id with
  | none => throw (.unknownCard id)
  | some c =>
    if (r.activeStage? c.board stage).isNone then throw (.closedStage stage c.board)
    -- stage and position go into one write
    let c := { c with stage, position := x }
    persist account { cards := [c] }
    pure c

/-- The position behind all stages of a board. -/
def nextPosition (stages : List Stage) : Int := ((stages.map (·.position)).max?.getD (-1)) + 1

/-- Store a new stage at the end of a board, or where the draft says. -/
def addStage (account : String) (board : Key) (d : Stage.Draft) : Op Stage := do
  let s ← get
  let existing := (s.records account).stagesOf board
  if existing.any fun t => t.key = d.key then throw (.takenStage d.key board)
  let position := d.position.getD (nextPosition existing)
  let id := toString s.repository.nextStage
  let stage : Stage := {
    id, board, key := d.key
    name := d.name.given?.getD d.key, position, active := d.active, color := d.color
    icon := d.icon }
  -- the number is used up, even if the stage cannot be written
  set { s with repository := { s.repository with nextStage := s.repository.nextStage + 1 } }
  -- a number that is too long to be read is not written either
  if Decimal.Numeral.maxDigits < id.length then throw (.unreadable .malformed)
  persist account { stages := [stage] }
  pure stage

/-- Store the default stages on a board that has none; gives the stages of the board. -/
def seed (account : String) (board : Key) : Op (List Stage) := do
  let existing := ((← get).records account).stagesOf board
  if existing.isEmpty then Stage.defaults.mapM (addStage account board) else pure existing

/-- Open or close a stage. -/
def setStageActive (account id : String) (active : Bool) : Op Stage := do
  let s ← stage account id
  let s := { s with active }
  persist account { stages := [s] }
  pure s

end Storage

/-- A card taken for update: its stage and position are changed here and then stored together. -/
structure Handle where
  account : String
  id : String
  board : Key
  stage : Key
  position : Value

namespace Handle

/-- Take a card for update. -/
def ofCard (account : String) (c : Card) : Handle :=
  { account, id := c.id, board := c.board, stage := c.stage, position := .real c.position }

/-- A handle as shown in messages. -/
def shown (h : Handle) : String :=
  "<CardHandle " ++ h.id ++ " " ++ h.board.shown ++ "/" ++ h.stage.shown ++ "@" ++
    h.position.shown ++ ">"

/-- Store the stage and position of the handle. -/
def save (h : Handle) : Storage.Op Card := Storage.place h.account h.id h.stage h.position

end Handle

end Kanban
