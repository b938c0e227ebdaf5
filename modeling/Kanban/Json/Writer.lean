import Kanban.Decimal.Layout
import Kanban.Json.Reader
import Kanban.Text.Quoted

/-!
# Kanban.Json.Writer — writing JSON text

Text is written in ASCII, everything else escaped; floats with the fewest digits that read
back. `pretty` puts every item on a line of its own, two blanks deeper than what holds it;
`compact` writes no blanks that it need not.
-/

namespace Kanban.Json

/-- How a character is written inside a string. -/
def escaped (c : Char) : List Char :=
  if c = '"' then ['\\', '"']
  else if c = '\\' then ['\\', '\\']
  else if c = '\n' then ['\\', 'n']
  else if c = '\r' then ['\\', 'r']
  else if c = '\t' then ['\\', 't']
  else if c = '\x0c' then ['\\', 'f']
  else if c = '\x08' then ['\\', 'b']
  else if 32 ≤ c.toNat ∧ c.toNat < 127 then [c]
  else if c.toNat < 0x10000 then '\\' :: 'u' :: Text.hex 4 c.toNat
  else
    let n := c.toNat - 0x10000
    '\\' :: 'u' :: Text.hex 4 (0xd800 + n / 1024) ++
      '\\' :: 'u' :: Text.hex 4 (0xdc00 + n % 1024)

/-- A text as a JSON string. -/
def quoted (s : String) : String := String.ofList ('"' :: s.toList.flatMap escaped ++ ['"'])

/-- The text of a value that holds no other. -/
def scalar : Value → String
  | .null => "null"
  | .bool b => if b then "true" else "false"
  | .whole n => toString n
  | .real x => Decimal.render .file x
  | .text s => quoted s
  | .list _ => "[]"
  | .object _ => "\x7b\x7d"

/-- A new line at a depth. -/
def newline (depth : Nat) : String := "\n" ++ String.ofList (List.replicate (2 * depth) ' ')

mutual

/-- A value with every item on a line of its own, starting at the given depth. -/
def prettyAt (depth : Nat) : Value → String
  | .list (v :: vs) =>
    "[" ++ newline (depth + 1) ++ prettyAt (depth + 1) v ++ prettyItems (depth + 1) vs ++
      newline depth ++ "]"
  | .object ((k, v) :: es) =>
    "\x7b" ++ newline (depth + 1) ++ quoted k ++ ": " ++ prettyAt (depth + 1) v ++
      prettyEntries (depth + 1) es ++ newline depth ++ "\x7d"
  | v => scalar v

/-- The items after the first. -/
def prettyItems (depth : Nat) : List Value → String
  | [] => ""
  | v :: vs => "," ++ newline depth ++ prettyAt depth v ++ prettyItems depth vs

/-- The entries after the first. -/
def prettyEntries (depth : Nat) : List (String × Value) → String
  | [] => ""
  | (k, v) :: es =>
    "," ++ newline depth ++ quoted k ++ ": " ++ prettyAt depth v ++ prettyEntries depth es

end

/-- How deeply arrays and objects may be nested in a text on many lines. Like the limit for reading
this is one interpreter's: it writes such texts by a recursion of its own, which ends sooner. -/
def maxWritten : Nat := 970

mutual

/-- What keeps a value from being written on many lines, if something does; what comes first in the
text is reported. -/
def problem? (depth : Nat) : Value → Option Problem
  | .whole n =>
    if Decimal.Numeral.maxDigits < (Nat.toDigits 10 n.natAbs).length then some .longNumeral else none
  | .list vs => if depth = 0 then some .tooDeep else problemItems? (depth - 1) vs
  | .object es => if depth = 0 then some .tooDeep else problemEntries? (depth - 1) es
  | _ => none

/-- What keeps items from being written. -/
def problemItems? (depth : Nat) : List Value → Option Problem
  | [] => none
  | v :: vs => (problem? depth v).or (problemItems? depth vs)

/-- What keeps entries from being written. -/
def problemEntries? (depth : Nat) : List (String × Value) → Option Problem
  | [] => none
  | (_, v) :: es => (problem? depth v).or (problemEntries? depth es)

end

/-- A value on many lines. -/
def pretty (v : Value) : String := prettyAt 0 v

mutual

/-- A value on one line. -/
def compact : Value → String
  | .list vs => "[" ++ ",".intercalate (compactItems vs) ++ "]"
  | .object es => "\x7b" ++ ",".intercalate (compactEntries es) ++ "\x7d"
  | v => scalar v

/-- The items of an array, each on one line. -/
def compactItems : List Value → List String
  | [] => []
  | v :: vs => compact v :: compactItems vs

/-- The entries of an object, each on one line. -/
def compactEntries : List (String × Value) → List String
  | [] => []
  | (k, v) :: es => (quoted k ++ ":" ++ compact v) :: compactEntries es

end

end Kanban.Json
