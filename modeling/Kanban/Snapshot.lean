import Kanban.Digest
import Kanban.Entries
import Kanban.Failure
import Kanban.Json.Reader
import Kanban.Json.Writer

/-!
# Kanban.Snapshot — snapshot files

The latest state of an account is kept in one file of a folder, named by a hash of the
account so that every account id is a safe file name. A file that is no JSON, or of another
version, counts as missing; a file that is no text or no record at all is a failure.

A write replaces the whole file or fails and leaves the folder as it was. It also fails if the
snapshot has no text, because something in it is nested too deeply or a number is too long.

* `get?_write_self` — a write is read back.
-/

namespace Kanban

/-- What a name in a folder stands for. -/
inductive Slot where
  | file (bytes : List UInt8)
  | folder
  deriving DecidableEq

/-- A folder with its files by name, if it is there at all. The system may refuse a write for
reasons of its own; `refusals` tells of the next writes whether it does. -/
structure Folder where
  present : Bool := true
  slots : Entries String Slot := []
  refusals : List Bool := []

namespace Folder

/-- What a name stands for. -/
def get? (name : String) (f : Folder) : Option Slot :=
  if f.present then Entries.get? name f.slots else none

/-- The names in the folder, in order. -/
def names (f : Folder) : List String :=
  if f.present then (Entries.keys f.slots).mergeSort (fun a b => decide (a ≤ b)) else []

/-- Whether the next write to a name fails. -/
def refuses (name : String) (f : Folder) : Bool :=
  !f.present || f.get? name == some .folder || f.refusals.headD false

/-- The folder after a write that failed. -/
def skip (f : Folder) : Folder := { f with refusals := f.refusals.tail }

/-- Write a file. -/
def write (name : String) (bytes : List UInt8) (f : Folder) : Except Failure Unit × Folder :=
  if f.refuses name then (.error .unwritable, f.skip)
  else (.ok (), { f with
    slots := Entries.put name (.file bytes) f.slots, refusals := f.refusals.tail })

/-- Delete a file; nothing happens if there is none. -/
def delete (name : String) (f : Folder) : Except Failure Folder :=
  if f.get? name = some .folder then .error .unwritable
  else .ok { f with slots := Entries.erase name f.slots }

/-- Lose the folder and all that is in it. -/
def lose (f : Folder) : Folder := { f with present := false, slots := [] }

/-- Make the folder again if it is not there. -/
def restore (f : Folder) : Folder := { f with present := true }

/-- Put a folder in the place of a file. -/
def block (name : String) (f : Folder) : Folder :=
  { f with slots := Entries.put name .folder f.slots }

theorem get?_write_self {name : String} {bytes : List UInt8} {f : Folder}
    (h : f.refuses name = false) : (f.write name bytes).2.get? name = some (.file bytes) := by
  have hp : f.present = true := by
    simp only [refuses, Bool.or_eq_false_iff, Bool.not_eq_false'] at h
    exact h.1.1
  simp [write, h, get?, hp]

end Folder

namespace Snapshot

/-- The version of snapshots that this library reads and writes. -/
def version : Int := 1

/-- The name of an account's file. -/
def stem (account : String) : String := ((Digest.hexOf account).take 16).toString

/-- The file of an account. -/
def fileName (account : String) : String := stem account ++ ".json"

/-- Whether a name is that of a snapshot file. -/
def isSnapshot (file : String) : Bool := ".json".toList.isSuffixOf file.toList

/-- The name of a snapshot file without its ending; a name that is nothing else is kept. -/
def stemOf (file : String) : String := if file = ".json" then file else (file.dropEnd 5).toString

/-- The JSON value in a file; none if there is no file or the file is no JSON. -/
def valueOf : Option Slot → Except Failure (Option Value)
  | none | some .folder => .ok none
  | some (.file bytes) =>
    match String.fromUTF8? (ByteArray.mk bytes.toArray) with
    | none => .error .undecodable
    | some s =>
      match Json.parse s with
      | .ok v => .ok (some v)
      | .error .malformed => .ok none
      | .error .longNumeral => .error (.unreadable .malformed)
      | .error .tooDeep => .error .tooDeep

/-- Whether a value is the version that is read. -/
def isCurrent : Value → Bool
  | .whole n => n == version
  | .real x => x == 1.0
  | .bool b => b
  | _ => false

/-- The snapshot of an account, if there is one. -/
def load (account : String) (f : Folder) : Except Failure (Option (Entries String Value)) := do
  match ← valueOf (f.get? (fileName account)) with
  | none => pure none
  | some v =>
    let r ← Failure.ofReading v.record
    pure (if isCurrent (r.getD "version" .null) then some r else none)

/-- A snapshot as one record. -/
def documentOf (account : Value) (savedAt : Float) (data : Entries String Value) : Value :=
  .object (Entries.merge
    [("version", .whole version), ("account_id", account), ("saved_at", .real savedAt)] data)

/-- The file text of a snapshot. -/
def textOf (account : Value) (savedAt : Float) (data : Entries String Value) : String :=
  Json.pretty (documentOf account savedAt data)

/-- What a snapshot that has no text comes to. -/
def failureOf : Json.Problem → Failure
  | .tooDeep => .tooDeep
  | .malformed | .longNumeral => .unreadable .malformed

/-- Write the snapshot of an account. -/
def save (account : Value) (savedAt : Float) (data : Entries String Value) (f : Folder) :
    Except Failure Unit × Folder :=
  match Json.problem? Json.maxWritten (documentOf account savedAt data) with
  -- without a folder the write fails before anything is put into text
  | some p => (.error (if f.present then failureOf p else .unwritable), f.skip)
  | none => f.write (fileName account.shown) (textOf account savedAt data).toUTF8.toList

/-- Delete the snapshot of an account. -/
def delete (account : String) (f : Folder) : Except Failure Folder :=
  f.delete (fileName account)

/-- The account that a file names, if there is JSON in it. -/
def accountIn (f : Folder) (name : String) : Except Failure (Option Value) := do
  match ← valueOf (f.get? name) with
  | none => pure none
  | some v =>
    let r ← Failure.ofReading v.record
    pure (some (r.getD "account_id" (.text (stemOf name))))

/-- The accounts that have a snapshot, as their files name them. -/
def accounts (f : Folder) : Except Failure (List Value) := do
  let found ← (f.names.filter isSnapshot).mapM (accountIn f)
  pure (found.filterMap id)

end Snapshot

end Kanban
