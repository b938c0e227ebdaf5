import Kanban.CommandLine.Run
import Std.Time.DateTime.Timestamp

/-!
# Kanban.Main — the command line

Reads the variables, the clock and the snapshot file of the account, carries out the command and
puts the file back. Snapshots are replaced as a whole: they are written next to the old file and
then renamed.
-/

namespace Kanban

/-- The variables of the environment that are read. -/
def readVariables : IO (Entries String String) := do
  let found ← Settings.variableNames.mapM fun name => do
    return (← IO.getEnv name).map (name, ·)
  return found.filterMap id

/-- The seconds on the clock. -/
def readClock : IO Float := do
  let t ← Std.Time.Timestamp.now
  return Float.ofInt t.toNanosecondsSinceUnixEpoch.val / 1000000000.0

/-- The folder of an account: its file, if there is one. -/
def readFolder (dir account : String) : IO Folder := do
  IO.FS.createDirAll dir
  let name := Snapshot.fileName account
  try
    let bytes ← IO.FS.readBinFile (dir ++ "/" ++ name)
    return { slots := [(name, .file bytes.toList)] }
  catch _ => return {}

/-- Put the file of an account back, if it changed. -/
def writeFolder (dir account : String) (old new : Folder) : IO Unit := do
  let name := Snapshot.fileName account
  if new.get? name = old.get? name then return
  match new.get? name with
  | some (.file bytes) =>
    let path := dir ++ "/" ++ name
    IO.FS.writeBinFile (path ++ ".tmp") ⟨bytes.toArray⟩
    IO.FS.rename (path ++ ".tmp") path
  | _ => return

/-- Tell how a command ended. -/
def report (o : CommandLine.Outcome) : IO UInt32 := do
  IO.print o.printed
  match o.ending with
  | .misused => IO.eprint CommandLine.Outcome.usage
  | .failed f => IO.eprintln ("Error: " ++ f.message)
  | .serving a _ =>
    IO.eprintln ("Error: no connections are accepted on " ++ a.host ++ ":" ++ toString a.number)
  | .done | .refused => pure ()
  return UInt32.ofNat o.ending.code

end Kanban

open Kanban in
/-- The command line of the program. -/
def main (args : List String) : IO UInt32 := do
  match CommandLine.prepare (← readVariables) args with
  | .error o => report o
  | .ok j =>
    let now ← readClock
    match j.settings.dataDir with
    | none => report (j.carryOut now {}).1
    | some dir =>
      let old ← readFolder dir j.account
      let (o, new) := j.carryOut now old
      writeFolder dir j.account old new
      report o
