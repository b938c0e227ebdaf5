import Kanban.Allocator
import Kanban.Channel
import Kanban.Repository

/-!
# Kanban.Server — the state that moves work on

The records, the channel and the source of positions that all requests share, and the
operations on them. An operation that fails keeps what it did before.

* `onStorage_eq` — an operation on storage leaves channel and allocator alone.
-/

namespace Kanban

/-- What all requests share. -/
structure Server where
  storage : Storage := {}
  channel : Channel := {}
  allocator : Allocator := {}

/-- An operation on a server. -/
abbrev Server.Op (α : Type) := ExceptT Failure (StateM Server) α

namespace Server

/-- The records of an account. -/
def records (account : String) (s : Server) : Records := s.storage.records account

/-- An operation on the storage of a server. -/
def onStorage {α : Type} (op : Storage.Op α) : Op α := fun s =>
  let r := op s.storage
  (r.1, { s with storage := r.2 })

/-- The server runs what changes its storage on the storage alone. -/
theorem onStorage_apply {α : Type} (op : Storage.Op α) (s : Server) :
    onStorage op s = ((op s.storage).1, { s with storage := (op s.storage).2 }) := rfl

/-- An operation on storage leaves channel and allocator alone. -/
theorem onStorage_eq {α : Type} (op : Storage.Op α) (s : Server) :
    (onStorage op s).2.channel = s.channel ∧ (onStorage op s).2.allocator = s.allocator :=
  ⟨rfl, rfl⟩

/-- Publish an event on an account's board. -/
def publish (account : String) (board : Key) (e : Value) (s : Server) : Server :=
  { s with channel := (s.channel.publish (Channel.keyOf account board) e).2 }

/-- Use an account: its snapshot is read the first time. -/
def use (account : String) : Op Unit := onStorage (Storage.use account)

end Server

end Kanban
