import Kanban.Http.Answer

/-!
# Kanban.Http.Stream — event streams

A client that opens a stream on a board is subscribed to its events, which are forwarded as
they come. The client may send texts: a ping is answered with a pong, what is not a JSON
object with an error, and anything else not at all.
-/

namespace Kanban.Http.Stream

/-- What a server sends on a stream. -/
inductive Message where
  | accept
  | json (v : Value)
  | close (code : Nat)

/-- The account that a stream is opened for: the header, or else the query, names it. -/
def accountOf (headers : List (String × String)) (t : Target) : String :=
  match (header? "x-account-id" headers).filter (· ≠ "") with
  | some a => a
  | none => ((t.query? "account_id").filter (· ≠ "")).getD defaultAccount

/-- An error message. -/
def errorMessage (text : String) : Message :=
  .json (.object [("type", "error"), ("payload", .object [("message", text)])])

/-- The answer to a ping. -/
def pong : Message := .json (.object [("type", "pong")])

/-- What a client's text is answered with; the stream breaks down on a text that cannot even be
read to its first fault. -/
def reply (text : String) : Except Failure (Option Message) :=
  match Json.parse text with
  | .ok (.object r) =>
    .ok (if Entries.getD "type" r .null = .text "ping" then some pong else none)
  | .ok _ | .error .malformed => .ok (some (errorMessage "Invalid JSON"))
  | .error .longNumeral => .error (.unreadable .malformed)
  | .error .tooDeep => .error .tooDeep

/-- Open a stream: what is sent at once, and the subscription if there is one. -/
def opened (v : Service) (headers : List (String × String)) (t : Target) :
    StateM Server (List Message × Option Nat) := do
  match Route.streamBoard? t.path with
  | none => pure ([.close 1000], none)
  | some key =>
    let account := accountOf headers t
    match ← (v.subscribe account (.text key)).run with
    | .ok n => pure ([.accept], some n)
    | .error f => pure ([.accept, errorMessage f.message, .close 1008], none)

end Kanban.Http.Stream
