import Kanban.Http.Target
import Kanban.Service

/-!
# Kanban.Http.Route — paths of the interface

What a path names and which methods it takes. A path that names nothing but would with a slash
more or less at its end is sent there; the pages that document the interface exist only
outside production.
-/

namespace Kanban.Http

/-- What a path names. -/
inductive Route where
  | board (key : String)
  | move (board : String)
  | stages (board : String)
  | stage (id : String)
  | health
  | root
  /-- A page about the interface. -/
  | manual
  deriving DecidableEq

namespace Route

/-- The methods that a route takes. -/
def methods : Route → List String
  | .board _ | .stages _ | .health | .root => ["GET"]
  | .manual => ["GET", "HEAD"]
  | .move _ => ["POST"]
  | .stage _ => ["DELETE"]

/-- The paths of pages about the interface. -/
def manuals : List String := ["/openapi.json", "/api/docs", "/docs/oauth2-redirect", "/api/redoc"]

/-- The parts of a path between slashes. A line feed at the end of a fixed part does not count. -/
def parts (path : String) : List String := Text.split '/' path

/-- Whether a part of a path is the given word. -/
def isWord (word part : String) : Bool := part == word || part == word ++ "\n"

/-- What a path names. -/
def ofPath? (production : Bool) (path : String) : Option Route :=
  if !production && manuals.any (fun m => isWord m path) then some .manual
  else match parts path with
    | ["", "api", "v1", "boards", key] => if key = "" then none else some (.board key)
    | ["", "api", "v1", "boards", key, last] =>
      if key = "" then none
      else if isWord "move" last then some (.move key)
      else if isWord "stages" last then some (.stages key)
      else none
    | ["", "api", "v1", "stages", id] => if id = "" then none else some (.stage id)
    | ["", last] =>
      if isWord "health" last then some .health
      else if isWord "" last then some .root
      else none
    | _ => none

/-- The board that a path of the event stream names. -/
def streamBoard? (path : String) : Option String :=
  match parts path with
  | ["", "api", "v1", "boards", key, last] =>
    if key = "" || !isWord "ws" last then none else some key
  | _ => none

/-- The path with its slashes at the end dropped, or with one if it has none. -/
def toggled (path : String) : String :=
  if path.endsWith "/" then
    String.ofList (path.toList.reverse.dropWhile (· = '/')).reverse
  else path ++ "/"

end Route

end Kanban.Http
