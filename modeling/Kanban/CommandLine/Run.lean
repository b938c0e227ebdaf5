import Kanban.CommandLine.Command
import Kanban.Decimal.Places
import Kanban.Seeding
import Kanban.Service

/-!
# Kanban.CommandLine.Run — carrying out a command

A command works on the snapshot of one account: it starts from the folder, changes it, prints
lines and ends in one of a few ways. Nothing else carries over from one command to the next.
-/

namespace Kanban.CommandLine

/-- How a command ends. -/
inductive Ending where
  | done
  /-- What was asked for could not be done. -/
  | refused
  /-- The command line could not be read. -/
  | misused
  | failed (f : Failure)
  /-- The boards are to be served from now on. -/
  | serving (address : Address) (logLevel : String)
  deriving DecidableEq

/-- The exit code of an ending. -/
def Ending.code : Ending → Nat
  | .done | .serving _ _ => 0
  | .refused | .failed _ => 1
  | .misused => 2

/-- What a command printed and how it ended. -/
structure Outcome where
  printed : String := ""
  ending : Ending := .done
  deriving DecidableEq

namespace Outcome

/-- Lines as they are printed. -/
def linesOf (ls : List String) : String := String.join (ls.map (· ++ "\n"))

/-- Everything was done. -/
def success (ls : List String) : Outcome := { printed := linesOf ls }

/-- Something could not be done. -/
def refusal (ls : List String) : Outcome := { printed := linesOf ls, ending := .refused }

/-- How commands are written. -/
def usage : String := linesOf [
  "usage: stageflow [-h] [--data-dir DATA_DIR] [--account ACCOUNT] COMMAND ...",
  "",
  "commands:",
  "  serve [--host HOST] [--port PORT]",
  "  seed [--cards CARDS] [board]",
  "  board [board]",
  "  move [--after ID] [--before ID] [--position POSITION] board card_id stage_key"]

end Outcome

/-- A text filled up with blanks from the left. -/
def rightAligned (width : Nat) (s : String) : String :=
  String.ofList (List.replicate (width - s.length) ' ') ++ s

/-- A card of a printed board. -/
def cardLine (c : Card) : String :=
  "  " ++ rightAligned 8 c.id ++ "  " ++ rightAligned 16 (Decimal.renderPlaces 3 c.position) ++
    if c.unread = 0 then "" else "  *" ++ toString c.unread

/-- A stage of a printed board with its cards. -/
def stageLines (l : Listing) (s : Stage) : List String :=
  let cards := (Entries.get? s.key l.cards).getD []
  ["", "[" ++ s.key.shown ++ "] " ++ s.name.shown ++ " (" ++ toString cards.length ++ ")"] ++
    cards.map cardLine

/-- A printed board. -/
def boardLines (l : Listing) : List String :=
  ["Board: " ++ l.board.shown] ++
    (if l.stages.isEmpty then ["  (no stages, run \x60stageflow seed\x60 first)"] else []) ++
    l.stages.flatMap (stageLines l)

/-- Seed a board. -/
def seed (settings : Settings) (account : String) (board : Option String) (cards : Int) :
    Server.Op Outcome := do
  Server.use account
  let b := board.getD settings.defaultBoard
  let s ← Server.onStorage (Seeding.run account b cards.toNat)
  return .success ["Board '" ++ b ++ "': " ++ toString s.stages.length ++ " stages, " ++
    toString s.cards.length ++ " cards added"]

/-- Print a board. -/
def showBoard (v : Service) (account : String) (board : Option String) : Server.Op Outcome := do
  match ← v.board account (.ofText? board) with
  | .error r => return .refusal ["Error: " ++ r.error]
  | .ok l => return .success (boardLines l)

/-- A refused move in words. The keys of the stages that there are must be text. -/
def refusedMove (r : Refusal) : Outcome :=
  let error := "Error [" ++ r.code.name ++ "]: " ++ r.error
  match Entries.get? "available_stages" r.details with
  | some (.list (k :: ks)) =>
    -- the first line is printed before the keys turn out not to be text
    if (k :: ks).all fun k => k matches .text _ then
      .refusal [error, "Available stages: " ++ ", ".intercalate ((k :: ks).map Value.shown)]
    else { printed := Outcome.linesOf [error], ending := .failed (.unreadable .wrongKind) }
  | _ => .refusal [error]

/-- The parameters of a move. -/
def moveParams (after before : Option String) (position : Option Float) : Value :=
  let given := (position.map fun x => ("absolute", Value.real x)).toList ++
    (after.map fun id => ("after_id", Value.text id)).toList ++
    (before.map fun id => ("before_id", Value.text id)).toList
  if given.isEmpty then .null else .object given

/-- Move a card. -/
def moveCard (v : Service) (now : Float) (q : MoveRequest) : Server.Op Outcome := do
  match ← v.move now q with
  | .error r => return refusedMove r
  | .ok c => return .success ["Moved card " ++ c.id ++ " to '" ++ c.stage.shown ++ "' at " ++
      (Value.real c.position).shown]

/-- A command that has its settings. -/
structure Job where
  settings : Settings
  account : String
  command : Command

namespace Job

/-- The operation of a command; serving is none. -/
def operation (j : Job) (now : Float) : Server.Op Outcome :=
  let v : Service := { settings := j.settings }
  match j.command with
  | .serve _ => return {}
  | .seed b n => seed j.settings j.account b n
  | .board b => showBoard v j.account b
  | .move b c s after before position =>
    moveCard v now ⟨j.account, .text b, .text c, .text s, moveParams after before position⟩

/-- Carry out an operation on a folder. -/
def onFolder (j : Job) (now : Float) (op : Server.Op Outcome) (f : Folder) : Outcome × Folder :=
  let server : Server := {
    storage := { folder := some f.restore, stamp := now }
    channel := { queueSize := j.settings.subscriberQueue } }
  match op server with
  | (.ok o, s) => (o, s.storage.folder.getD f)
  | (.error e, s) => ({ ending := .failed e }, s.storage.folder.getD f)

/-- Carry out a command. -/
def carryOut (j : Job) (now : Float) (f : Folder) : Outcome × Folder :=
  match j.command with
  | .serve address =>
    if Settings.logLevels.contains j.settings.logLevel then
      ({ ending := .serving address j.settings.logLevel.toLower }, f)
    else ({ ending := .failed (.unreadable .malformed) }, f)
  | _ =>
    if j.settings.dataDir.isNone then
      (.refusal ["Error: no data directory (set STAGEFLOW_DATA_DIR or pass --data-dir)"], f)
    else j.onFolder now (j.operation now) f

end Job

/-- What the arguments ask for under the variables of an environment, or how it ends before. -/
def prepare (env : Entries String String) (args : List String) : Except Outcome Job :=
  match Request.ofArguments args with
  | .error .help => .error { printed := Outcome.usage }
  | .error .misused => .error { ending := .misused }
  | .ok q =>
    match Settings.ofVariables env with
    | .error e => .error { ending := .failed (.unreadable e) }
    | .ok settings =>
      match q.command with
      | none => .error { printed := Outcome.usage, ending := .refused }
      | some command =>
        .ok { settings := { settings with dataDir := q.dataDir <|> settings.dataDir }
              account := q.account, command }

/-- Carry out what the arguments ask for. -/
def run (now : Float) (env : Entries String String) (args : List String) (f : Folder) :
    Outcome × Folder :=
  match prepare env args with
  | .error o => (o, f)
  | .ok j => j.carryOut now f

end Kanban.CommandLine
