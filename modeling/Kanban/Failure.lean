import Kanban.Value.Coerce

/-!
# Kanban.Failure — what can go wrong

Every way an operation can fail, by its cause, with the wording in one place. Failures of the
store's own rules come first; a collaborator (a transport, a loader, the storage behind a card)
may fail in ways of its own, which are passed on as reported.

Not every failure has words: a number in it may be too long to be written, and a collaborator may
fail again when it is asked what went wrong. A `Reason` is a failure that has.

* `reason_failure`, `reason_of_fault?` — which failures are reasons.
-/

namespace Kanban

/-- What is wrong with one field of a request. -/
inductive Issue.Kind where
  | missing
  | notText
  | emptyText
  | notNumber
  | badNumeral
  | notRecord
  | notAttributes
  | badJson
  deriving DecidableEq

/-- A field of a request that cannot be used, named by the path to it. -/
structure Issue where
  path : List String
  kind : Issue.Kind
  deriving DecidableEq

/-- Why an operation failed. -/
inductive Failure where
  /-- Data from outside could not be read. -/
  | unreadable (fault : Fault)
  /-- A request does not have the fields it needs. -/
  | misshapen (issues : List Issue)
  /-- There is no such card. -/
  | unknownCard (id : String)
  /-- There is no stage with this id. -/
  | unknownStage (id : String)
  /-- The stage is not, or no longer, an active one of the board. -/
  | closedStage (stage board : Key)
  /-- There is a card with this id already. -/
  | takenCard (id : String)
  /-- There is a stage with this key on the board already. -/
  | takenStage (key board : Key)
  /-- A position that is not a number. -/
  | oddPosition (given : Value)
  /-- A position that is infinite or undefined. -/
  | endlessPosition
  /-- A snapshot could not be written or deleted. -/
  | unwritable
  /-- A snapshot is no text. -/
  | undecodable
  /-- A text is nested too deeply. -/
  | tooDeep
  /-- A client does not show this card. -/
  | notOnBoard (card : String) (board : Key)
  /-- A client has nothing to send moves with. -/
  | noTransport
  /-- A client has nothing to read boards with. -/
  | noLoader
  /-- The caller may not use the board. -/
  | accessDenied (board : Key)
  /-- A board could not be read, for the reason given. -/
  | refused (reason : String)
  /-- The server answered a move with an error. -/
  | rejected (reason code details : Value)
  /-- Nothing came in time. -/
  | timedOut
  /-- A collaborator reports that a record is missing. -/
  | reportedMissing (reason : String)
  /-- A collaborator reports that a record would become invalid. -/
  | reportedInvalid (reason : String)
  /-- A collaborator failed in a way of its own. -/
  | reported (kind reason : String)
  /-- A collaborator failed in a way of its own, and so does asking it for words. -/
  | unspoken (fault : Fault)
  deriving DecidableEq

namespace Failure

/-- Whether a record was missing. -/
def isMissingRecord : Failure → Bool
  | .unknownCard _ | .unknownStage _ | .closedStage _ _ | .reportedMissing _ => true
  | _ => false

/-- Whether a record would have become invalid. -/
def isInvalidRecord : Failure → Bool
  | .takenCard _ | .takenStage _ _ | .oddPosition _ | .endlessPosition | .reportedInvalid _ => true
  | _ => false

/-- A failure in words, if it has any. -/
def message : Failure → String
  | .unreadable (.missing k) => k.quoted
  | .unreadable _ => ""
  | .misshapen _ => ""
  | .unknownCard id => "Card " ++ id ++ " not found"
  | .unknownStage id => "Stage " ++ id ++ " not found"
  | .closedStage s b =>
    "Stage '" ++ s.shown ++ "' is not an active stage of board '" ++ b.shown ++ "'"
  | .takenCard id => "Card " ++ id ++ " already exists"
  | .takenStage k b =>
    "Stage key '" ++ k.shown ++ "' already exists on board '" ++ b.shown ++ "'"
  | .oddPosition v => "Position must be a number, got " ++ v.quoted
  | .endlessPosition => "Position must be a finite number"
  | .unwritable | .undecodable | .tooDeep => ""
  | .notOnBoard c b => "Card " ++ c ++ " is not on board '" ++ b.shown ++ "'"
  | .noTransport => "No move transport configured"
  | .noLoader => "No board loader configured"
  | .accessDenied b => "Board '" ++ b.shown ++ "' access denied"
  | .refused reason => reason
  | .rejected reason _ _ => reason.shown
  | .timedOut => ""
  | .reportedMissing reason | .reportedInvalid reason => reason
  | .reported kind reason => if kind = "KeyError" then Text.quote reason else reason
  | .unspoken _ => ""

/-- What goes wrong when a failure is put into words. Of values that are shown, only the length of
their whole numbers matters, not how deeply they are nested. -/
def fault? : Failure → Option Fault
  | .unreadable (.missing v) | .rejected v _ _ => if v.overlong then some .malformed else none
  | .unspoken fault => some fault
  | _ => none

instance : Coe Fault Failure := ⟨.unreadable⟩

/-- A reading, its fault counted as a failure. -/
def ofReading {α : Type} : Except Fault α → Except Failure α
  | .ok a => .ok a
  | .error f => .error (.unreadable f)

end Failure

/-- A failure that can be put into words. -/
structure Reason where
  failure : Failure
  spoken : failure.fault? = none
  deriving DecidableEq

/-- The words of a reason. -/
def Reason.words (r : Reason) : String := r.failure.message

namespace Failure

/-- A failure as a reason, if it can be put into words. -/
def reason (e : Failure) : Except Fault Reason :=
  match h : e.fault? with
  | none => .ok ⟨e, h⟩
  | some fault => .error fault

@[simp] theorem reason_failure (r : Reason) : r.failure.reason = .ok r := by
  unfold reason
  split
  · rfl
  · next h => rw [r.spoken] at h; cases h

theorem reason_of_fault? {e : Failure} {fault : Fault} (h : e.fault? = some fault) :
    e.reason = .error fault := by
  unfold reason
  split
  · next hn => rw [h] at hn; cases hn
  · next hs => rw [h] at hs; rw [Option.some.inj hs]

end Failure

end Kanban
