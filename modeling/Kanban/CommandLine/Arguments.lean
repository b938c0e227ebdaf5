import Kanban.Entries
import Kanban.Text.Digit
import Kanban.Value

/-!
# Kanban.CommandLine.Arguments — arguments of a command

An argument is a word or an option. Options may be shortened as long as only one is meant, and
carry a value after an equals sign or in the next argument. Words fill the places of a command
one after the other; where a further command is expected, it takes the first word as its name
and all that follows as its own arguments. After two dashes everything is a word.

Reading stops at the first argument that cannot be used, and where help is asked for.
Arguments that only have no use are noted and read over.
-/

namespace Kanban.CommandLine

/-- An option of a command and how its value is read. -/
structure Flag where
  name : String
  read : String → Option Value := fun s => some (.text s)

/-- A place for a word. -/
structure Place where
  name : String
  needed : Bool := true

/-- What a command can be given. -/
structure Grammar where
  flags : List Flag := []
  places : List Place := []
  /-- Whether a further command comes after the places. -/
  takesCommand : Bool := false

/-- Why arguments were not read to their end. -/
inductive Stop where
  | misused
  | help
  deriving DecidableEq

/-- What an argument is. -/
inductive Token where
  | word
  /-- The two dashes after which everything is a word. -/
  | dashes
  /-- A request for help, with a value that it has no use for. -/
  | help (spare : Option String)
  | option (f : Flag) (value : Option String)
  | unknown

/-- What arguments say. -/
structure Reading where
  values : Entries String Value := []
  /-- The places that are left. -/
  places : List Place := []
  /-- The further command with its arguments. -/
  command : List String := []
  /-- Whether there was an argument without use. -/
  surplus : Bool := false

/-- The part of an argument before an equals sign, and the part after it. -/
def cutEquals (arg : String) : String × Option String :=
  let cs := arg.toList
  let front := cs.takeWhile (· ≠ '=')
  (String.ofList front,
    if front.length = cs.length then none else some (String.ofList (cs.drop (front.length + 1))))

/-- Whether an argument is a number below zero: digits after a dash, with or without a point. -/
def isNegative (arg : String) : Bool :=
  match arg.toList with
  | '-' :: rest =>
    let isDigit (c : Char) : Bool := (Text.digit? c).isSome
    let front := rest.takeWhile isDigit
    match rest.drop front.length with
    | [] => !front.isEmpty
    | '.' :: back => !back.isEmpty && back.all isDigit
    | _ => false
  | _ => false

/-- The options by name; the one that is no flag asks for help. -/
def optionsOf (flags : List Flag) : List (String × Option Flag) :=
  ("--help", none) :: flags.map fun f => (f.name, some f)

/-- An option with the value that came with it. -/
def tokenOf (value : Option String) : Option Flag → Token
  | none => .help value
  | some f => .option f value

/-- An argument that is no option: a number below zero and a phrase are words. -/
def plainToken (arg : String) : Token :=
  if isNegative arg || arg.contains ' ' then .word else .unknown

/-- What follows the letter that asks for help counts as a value where it begins with an equals sign
or a dash; any other letters are left unread. -/
def spareOf : List Char → Option String
  | c :: rest => if c = '=' ∨ c = '-' then some (String.ofList (c :: rest)) else none
  | [] => none

/-- What an argument is for a command with these options. A name is looked up in full first, then as
the beginning of a name. -/
def classify (flags : List Flag) (arg : String) : Except Stop Token :=
  if !arg.startsWith "-" || arg == "-" then .ok .word
  else if arg.startsWith "--" then
    let options := optionsOf flags
    let (name, value) := cutEquals arg
    match options.filter fun o => o.1 = name with
    | [o] => .ok (tokenOf value o.2)
    | _ =>
      -- a beginning that two options share is misuse
      match options.filter fun o => o.1.startsWith name with
      | [o] => .ok (tokenOf value o.2)
      | [] => .ok (plainToken arg)
      | _ => .error .misused
  else
    match arg.toList.drop 1 with
    -- there is one short option, and a row of its letters is the same as one
    | 'h' :: rest => .ok (.help (spareOf (rest.dropWhile (· = 'h'))))
    | _ => .ok (plainToken arg)

/-- Classify arguments; after two dashes everything is a word. -/
def classifyAll (flags : List Flag) : List String → Except Stop (List (String × Token))
  | [] => .ok []
  | arg :: rest =>
    if arg = "--" then .ok ((arg, .dashes) :: rest.map (·, .word))
    else do
      let token ← classify flags arg
      pure ((arg, token) :: (← classifyAll flags rest))

namespace Reading

/-- The value of an option or of a place. -/
def value (r : Reading) (name : String) : Value := (Entries.get? name r.values).getD .null

/-- Take down the value of an option; the last one counts. -/
def setFlag (f : Flag) (s : String) (r : Reading) : Except Stop Reading :=
  match f.read s with
  | some v => .ok { r with values := Entries.put f.name v r.values }
  | none => .error .misused

end Reading

/-- Read classified arguments. Two dashes belong to the place before or after them; ahead of a
further command they would be taken for its name, and no command has it. -/
def readAll (takesCommand : Bool) : List (String × Token) → Reading → Except Stop Reading
  | [], r => if r.places.any (·.needed) then .error .misused else .ok r
  | (arg, .word) :: rest, r =>
    match r.places with
    | p :: places =>
      let r := { r with values := Entries.put p.name (.text arg) r.values, places }
      match rest with
      | (_, .dashes) :: rest => readAll takesCommand rest r
      | rest => readAll takesCommand rest r
    | [] =>
      if takesCommand then .ok { r with command := arg :: rest.map (·.1) }
      else readAll takesCommand rest { r with surplus := true }
  | (_, .dashes) :: rest, r =>
    if takesCommand then .error .misused
    else readAll takesCommand rest { r with surplus := r.surplus || r.places.isEmpty }
  | (_, .unknown) :: rest, r => readAll takesCommand rest { r with surplus := true }
  | (_, .help spare) :: _, _ => .error (if spare.isNone then .help else .misused)
  | (_, .option f (some s)) :: rest, r =>
    match r.setFlag f s with
    | .ok r => readAll takesCommand rest r
    | .error e => .error e
  | (_, .option f none) :: (s, .word) :: rest, r =>
    match r.setFlag f s with
    | .ok r => readAll takesCommand rest r
    | .error e => .error e
  | (_, .option _ none) :: _, _ => .error .misused

/-- Read the arguments of a command. -/
def Grammar.read (g : Grammar) (args : List String) : Except Stop Reading := do
  readAll g.takesCommand (← classifyAll g.flags args) { places := g.places }

end Kanban.CommandLine
