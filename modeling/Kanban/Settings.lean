import Kanban.Card
import Kanban.Text.Split
import Kanban.Text.Uppercase

/-!
# Kanban.Settings — configuration

What can be configured is read from variables of the environment, all with defaults. Numbers
must be numerals; everything else is taken as it is.
-/

namespace Kanban

/-- The configuration of a service. -/
structure Settings where
  env : String := "development"
  /-- Where snapshots are kept; nowhere means that boards are kept in memory only. -/
  dataDir : Option String := none
  /-- The board used when a request names none. -/
  defaultBoard : String := Kanban.defaultBoard
  /-- How many cards of a stage a board listing shows. -/
  stageCardLimit : Int := 50
  /-- How many events are buffered for a subscriber; nothing above zero means without bound. -/
  subscriberQueue : Int := 256
  logLevel : String := "INFO"
  allowedOrigins : List String := ["*"]

namespace Settings

/-- Whether the service runs in production. -/
def isProduction (s : Settings) : Bool := s.env == "production"

/-- The parts of a text between commas. -/
def commaParts (s : String) : List String := Text.split ',' s

/-- A numeral among the variables. -/
def numeral (s : String) : Except Fault Int := (Value.text s).toWhole

/-- The variables that are read. -/
def variableNames : List String :=
  ["STAGEFLOW_ENV", "STAGEFLOW_DATA_DIR", "STAGEFLOW_DEFAULT_BOARD", "STAGEFLOW_STAGE_CARD_LIMIT",
   "STAGEFLOW_SUBSCRIBER_QUEUE", "STAGEFLOW_LOG_LEVEL", "ALLOWED_ORIGINS"]

/-- The levels at which a server can log. -/
def logLevels : List String :=
  ["CRITICAL", "FATAL", "ERROR", "WARN", "WARNING", "INFO", "DEBUG", "NOTSET"]

/-- The settings that the variables of an environment describe. -/
def ofVariables (env : Entries String String) : Except Fault Settings := do
  let lookup (name default : String) : String := (Entries.get? name env).getD default
  let limit ← numeral (lookup "STAGEFLOW_STAGE_CARD_LIMIT" "50")
  let queue ← numeral (lookup "STAGEFLOW_SUBSCRIBER_QUEUE" "256")
  let dir := lookup "STAGEFLOW_DATA_DIR" ""
  pure {
    env := lookup "STAGEFLOW_ENV" "development"
    dataDir := if dir == "" then none else some dir
    defaultBoard := lookup "STAGEFLOW_DEFAULT_BOARD" Kanban.defaultBoard
    stageCardLimit := limit
    subscriberQueue := queue
    logLevel := Text.uppercase (lookup "STAGEFLOW_LOG_LEVEL" "INFO")
    allowedOrigins := ((commaParts (lookup "ALLOWED_ORIGINS" "*")).map Text.trim).filter
      fun s => s != "" }

/-- The settings as a record. -/
def toValue (s : Settings) : Value :=
  .object [("env", s.env), ("data_dir", Value.ofText? s.dataDir),
    ("default_board", s.defaultBoard), ("stage_card_limit", .whole s.stageCardLimit),
    ("subscriber_queue", .whole s.subscriberQueue), ("log_level", s.logLevel),
    ("allowed_origins", .list (s.allowedOrigins.map .text)),
    ("is_production", .bool s.isProduction)]

end Settings

end Kanban
