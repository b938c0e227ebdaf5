import Kanban.Http.MoveBody
import Kanban.Http.Route

/-!
# Kanban.Http.Answer — answers to requests

A request names its account in a header and is answered with a status and a JSON body. A
refusal has the status of its code; a malformed request is refused before anything else is
looked at. Numbers that JSON cannot hold are null in bodies.

A move is answered in two steps, like the move behind it.
-/

namespace Kanban.Http

/-- What a request carries. -/
inductive Body where
  | text (s : String)
  | json (v : Value)

/-- A request. -/
structure Request where
  method : String
  target : Target
  headers : List (String × String) := []
  body : Body := .text ""

/-- An answer. -/
inductive Reply where
  | json (status : Nat) (body : Value)
  | bare (status : Nat)
  | page (status : Nat)
  | failed (failure : Failure)

/-- The value of a header, its name in any case. -/
def header? (name : String) (headers : List (String × String)) : Option String :=
  (headers.find? fun h => h.1.toLower == name).map (·.2)

/-- The account of a request that names none. -/
def defaultAccount : String := "default"

/-- The account that a request names. -/
def accountOf (headers : List (String × String)) : String :=
  (header? "x-account-id" headers).getD defaultAccount

/-- Whether a content type is JSON. -/
def isJson (contentType : String) : Bool :=
  let kind := (Text.trimBy Text.isBlank (contentType.toList.takeWhile (· ≠ ';'))).map Char.toLower
  match Text.splitList '/' kind with
  | [main, sub] =>
    main == "application".toList && (sub == "json".toList || "+json".toList.isSuffixOf sub)
  | _ => false

mutual

/-- A value with null in the place of numbers that JSON cannot hold. -/
def presentable : Value → Value
  | .real x => if Decimal.isFinite x then .real x else .null
  | .list vs => .list (presentableItems vs)
  | .object es => .object (presentableEntries es)
  | v => v

/-- The items of a list, each presentable. -/
def presentableItems : List Value → List Value
  | [] => []
  | v :: vs => presentable v :: presentableItems vs

/-- The entries of an object, each presentable. -/
def presentableEntries : List (String × Value) → List (String × Value)
  | [] => []
  | (k, v) :: es => (k, presentable v) :: presentableEntries es

end

/-- The status of a refusal. -/
def status : ErrorCode → Nat
  | .notFound => 404
  | .invalid | .invalidTransition => 422
  | .forbidden => 403
  | .transitionFailed => 500
  | .validation => 400

namespace Reply

/-- Success. -/
def ok (v : Value) : Reply := .json 200 (presentable v)

/-- A refusal. -/
def refused (r : Refusal) : Reply := .json (status r.code) (presentable r.toValue)

/-- An answer of the interface itself. -/
def detail (status : Nat) (text : String) : Reply := .json status (.object [("detail", text)])

end Reply

/-- The name of an issue in answers. -/
def issueName : Issue.Kind → String
  | .missing => "missing"
  | .notText => "string_type"
  | .emptyText => "string_too_short"
  | .notNumber => "float_type"
  | .badNumeral => "float_parsing"
  | .notRecord => "model_type"
  | .notAttributes => "model_attributes_type"
  | .badJson => "json_invalid"

/-- Issues as listed in answers. -/
def issuesValue (is : List Issue) : Value :=
  .list (is.map fun i =>
    .object [("loc", .list (i.path.map .text)), ("type", issueName i.kind)])

/-- The request is malformed. -/
def malformed (is : List Issue) : Refusal where
  error := "Malformed request"
  code := .validation
  details := [("errors", issuesValue is)]

/-- The move that a request carries. -/
def readMove (q : Request) : Except Reply MoveBody :=
  let checked (c : Checked MoveBody) : Except Reply MoveBody :=
    match Checked.under "body" c with
    | .ok b => .ok b
    | .error is => .error (.refused (malformed is))
  match q.body with
  | .json v => checked (MoveBody.check .notAttributes v)
  | .text s =>
    if s = "" then checked (issue [] .missing)
    -- a body of another type is a text, and a text is no record
    else if !isJson ((header? "content-type" q.headers).getD "") then
      checked (issue [] .notAttributes)
    else
      match Json.parse (if s.startsWith "\ufeff" then (s.drop 1).toString else s) with
      | .ok v => checked (MoveBody.check .notAttributes v)
      | .error .malformed => checked (issue [] .badJson)
      | .error _ => .error (.detail 400 "There was an error parsing the body")

/-- Whether a value can stand where an answer has text. -/
def isText : Value → Bool
  | .text _ => true
  | _ => false

/-- Whether a value can stand where an answer has text or null. -/
def isTextOrNull (v : Value) : Bool := isText v || v == .null

/-- Whether a stage can be shown in an answer. -/
def isPresentable (s : Stage) : Bool :=
  isText s.key && isText s.name && isTextOrNull s.color && isTextOrNull s.icon

/-- An answer that shows stages, which have to be presentable. -/
def showing (stages : List Stage) (v : Value) : Reply :=
  if stages.all isPresentable then .ok v else .failed (.misshapen [])

/-- The answer to a move. -/
def moveReply : Except Refusal Card → Reply
  | .ok c => .ok (Moved.toValue c)
  | .error r => .refused r

/-- The answer of an operation that may have failed. -/
def orFailed (op : Server.Op Reply) : StateM Server Reply := do
  match ← op.run with
  | .ok r => pure r
  | .error f => pure (.failed f)

/-- What a request comes to at first: an answer, or a move that was planned. -/
abbrev Begun := Reply ⊕ (Plan × Key)

/-- Answer a request at a route, a move as far as its plan. -/
def serve (v : Service) (now : Float) (q : Request) (r : Route) : StateM Server Begun := do
  let account := accountOf q.headers
  match r with
  | .health => pure (.inl (.ok (.object
      [("status", "healthy"), ("service", "stageflow"), ("version", "0.1.0")])))
  | .root => pure (.inl (.ok (.object
      [("service", "Stageflow API"),
       ("docs", if v.settings.isProduction then .null else "/api/docs"), ("health", "/health")])))
  | .manual => pure (.inl (.page 200))
  | .board key => .inl <$> orFailed do
      match ← v.board account key with
      | .ok l => pure (showing l.stages l.toValue)
      | .error e => pure (.refused e)
  | .stages key => .inl <$> orFailed do
      match ← v.stages account key with
      | .ok l => pure (showing l.stages (.object
          [("board_key", l.board), ("stages", .list (l.stages.map Stage.summary)),
           ("count", .whole l.stages.length), ("api_version", apiVersion)]))
      | .error e => pure (.refused e)
  | .stage id => .inl <$> orFailed do
      match ← v.deactivate account id with
      | .ok d =>
        if isText d.stage.key && isTextOrNull (d.fallback.getD .null) then pure (.ok d.toValue)
        else pure (.failed (.misshapen []))
      | .error e => pure (.refused e)
  | .move key =>
    match readMove q with
    | .error reply => pure (.inl reply)
    | .ok b =>
      let params : Value := (b.position.map fun p => Value.object p.toParams).getD .null
      match ← (v.startMove now ⟨account, .text key, .text b.card, .text b.stage, params⟩).run with
      | .error f => pure (.inl (.failed f))
      | .ok (.error e) => pure (.inl (.refused e))
      | .ok (.ok p) => pure (.inr (p, .text b.stage))

/-- Answer a request, a move as far as its plan. -/
def start (v : Service) (now : Float) (q : Request) : StateM Server Begun := do
  let production := v.settings.isProduction
  match Route.ofPath? production q.target.path with
  | some r =>
    if r.methods.contains q.method then serve v now q r
    else pure (.inl (.detail 405 "Method Not Allowed"))
  | none =>
    if (Route.ofPath? production (Route.toggled q.target.path)).isSome then pure (.inl (.bare 307))
    else pure (.inl (.detail 404 "Not Found"))

/-- Answer a move that was planned. -/
def finish (slip : Except Failure Unit) (p : Plan) (target : Key) : StateM Server Reply :=
  orFailed (moveReply <$> Service.finishMove slip p target)

end Kanban.Http
