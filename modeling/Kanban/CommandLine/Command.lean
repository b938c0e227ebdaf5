import Kanban.CommandLine.Arguments
import Kanban.Decimal.Numeral
import Kanban.Settings

/-!
# Kanban.CommandLine.Command — what can be asked on the command line

There are four commands: serving boards, seeding one, printing one and moving a card. Which
account is meant and where snapshots are kept is said before the command.

A request without a command is readable, and asks for nothing.
-/

namespace Kanban.CommandLine

/-- Where connections are accepted: a host and one of its numbers. -/
structure Address where
  host : String
  number : Int
  deriving DecidableEq

/-- Something to be done. -/
inductive Command where
  | serve (address : Address)
  /-- Give a board its default stages and some sample cards. -/
  | seed (board : Option String) (cards : Int)
  | board (board : Option String)
  | move (board card stage : String) (after before : Option String) (position : Option Float)

/-- What a command line asks for. -/
structure Request where
  /-- Where snapshots are kept, if said. -/
  dataDir : Option String := none
  account : String := "default"
  command : Option Command := none

namespace Reading

/-- A text among what was read, if it was given and is not empty. -/
def text? (r : Reading) (name : String) : Option String :=
  match r.value name with
  | .text s => if s = "" then none else some s
  | _ => none

/-- A text that has to be there. -/
def text (r : Reading) (name : String) (default : String := "") : String :=
  match r.value name with
  | .text s => s
  | _ => default

/-- A whole number among what was read. -/
def whole (r : Reading) (name : String) (default : Int) : Int :=
  match r.value name with
  | .whole n => n
  | _ => default

/-- A number among what was read. -/
def real? (r : Reading) (name : String) : Option Float :=
  match r.value name with
  | .real x => some x
  | _ => none

end Reading

namespace Command

/-- A whole number as the value of an option. -/
def readWhole (s : String) : Option Value := (Decimal.wholeOf? s).map .whole

/-- A number as the value of an option. -/
def readReal (s : String) : Option Value := (Decimal.realOf? s).map .real

/-- What each command can be given, and what it then is. -/
def table : List (String × Grammar × (Reading → Command)) :=
  [("serve", { flags := [⟨"--host", fun s => some (.text s)⟩, ⟨"--port", readWhole⟩] },
      fun r => .serve ⟨r.text "--host" "127.0.0.1", r.whole "--port" 8000⟩),
   ("seed", { flags := [⟨"--cards", readWhole⟩], places := [⟨"board", false⟩] },
      fun r => .seed (r.text? "board") (r.whole "--cards" 0)),
   ("board", { places := [⟨"board", false⟩] }, fun r => .board (r.text? "board")),
   ("move", {
      flags := [{ name := "--after" }, { name := "--before" }, ⟨"--position", readReal⟩]
      places := [⟨"board", true⟩, ⟨"card_id", true⟩, ⟨"stage_key", true⟩] },
      fun r => .move (r.text "board") (r.text "card_id") (r.text "stage_key") (r.text? "--after")
        (r.text? "--before") (r.real? "--position"))]

end Command

namespace Request

/-- What can be said before the command. -/
def grammar : Grammar where
  flags := [{ name := "--data-dir" }, { name := "--account" }]
  takesCommand := true

/-- What a command line asks for. Arguments without use are counted against it only after the
command was read, which may still ask for help. -/
def ofArguments (args : List String) : Except Stop Request := do
  let r ← grammar.read args
  let request : Request := { dataDir := r.text? "--data-dir", account := r.text "--account" "default" }
  match r.command with
  | [] => if r.surplus then throw .misused else return request
  | name :: args =>
    match Entries.get? name Command.table with
    | none => throw .misused
    | some (g, make) =>
      let c ← g.read args
      if r.surplus || c.surplus then throw .misused
      return { request with command := some (make c) }

end Request

end Kanban.CommandLine
