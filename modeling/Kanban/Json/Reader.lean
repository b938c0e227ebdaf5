import Kanban.Value
import Kanban.Decimal.Numeral

/-!
# Kanban.Json.Reader — reading JSON text

The reader accepts JSON with three more numbers (`NaN`, `Infinity`, `-Infinity`), keeps whole
numbers apart from floats, and of several entries of an object with one key keeps the last
value in the first place. A text is malformed, or it holds a numeral that is too long, or it
is nested too deeply; what comes first in the text is reported. Escaped halves of characters are
joined; texts are made of whole characters, so a half that stands alone is replaced (`joined`).
-/

namespace Kanban.Json

/-- What is wrong with a text. -/
inductive Problem where
  | malformed
  | longNumeral
  | tooDeep
  deriving DecidableEq, Repr

/-- How deeply arrays and objects may be nested. The format has no limit: this is how far one
interpreter gets (that of version 3.12 and later), whose stack sets it, and others differ. -/
def maxDepth : Nat := 10000

/-- Characters that may stand between the parts of a text. -/
def isGap (c : Char) : Bool := c == ' ' || c == '\n' || c == '\r' || c == '\t'

/-- Drop the characters between parts. -/
def skip (cs : List Char) : List Char := cs.dropWhile isGap

/-- The number that four hexadecimal digits denote. -/
def hex4? : List Char → Option (Nat × List Char)
  | a :: b :: c :: d :: rest =>
    let digit (c : Char) : Option Nat :=
      if c.isDigit then some (c.toNat - 48)
      else if 'a' ≤ c ∧ c ≤ 'f' then some (c.toNat - 87)
      else if 'A' ≤ c ∧ c ≤ 'F' then some (c.toNat - 55)
      else none
    match digit a, digit b, digit c, digit d with
    | some a, some b, some c, some d => some (((16 * a + b) * 16 + c) * 16 + d, rest)
    | _, _, _, _ => none
  | _ => none

/-- The character of an escape of one letter. -/
def letter? : Char → Option Char
  | '"' => some '"'
  | '\\' => some '\\'
  | '/' => some '/'
  | 'b' => some '\x08'
  | 'f' => some '\x0c'
  | 'n' => some '\n'
  | 'r' => some '\r'
  | 't' => some '\t'
  | _ => none

/-- The second half of a character outside the basic plane, and what follows it. -/
def low? : List Char → Option (Nat × List Char)
  | '\\' :: 'u' :: rest =>
    match hex4? rest with
    | some (n, rest) => if 0xdc00 ≤ n ∧ n < 0xe000 then some (n, rest) else none
    | none => none
  | _ => none

/-- The character whose first half was just read, and what follows it. A text here has no halves
that stand alone: where one is written, it is the replacement character that is read, so nothing is
said about texts that keep such halves. -/
def joined (n : Nat) (rest : List Char) : Char × List Char :=
  if 0xd800 ≤ n ∧ n < 0xdc00 then
    match low? rest with
    | some (m, rest) => (Char.ofNat (0x10000 + (n - 0xd800) * 1024 + (m - 0xdc00)), rest)
    | none => ('\ufffd', rest)
  else if 0xdc00 ≤ n ∧ n < 0xe000 then ('\ufffd', rest)
  else (Char.ofNat n, rest)

/-- The rest of a string, after its opening quote: its characters and what follows it. -/
def string : Nat → List Char → Option (List Char × List Char)
  | 0, _ => none
  | fuel + 1, cs =>
    match cs with
    | [] => none
    | '"' :: rest => some ([], rest)
    | '\\' :: 'u' :: rest =>
      match hex4? rest with
      | none => none
      | some (n, rest) =>
        let (c, rest) := joined n rest
        (string fuel rest).map fun (s, rest) => (c :: s, rest)
    | '\\' :: c :: rest =>
      match letter? c with
      | none => none
      | some c => (string fuel rest).map fun (s, rest) => (c :: s, rest)
    | c :: rest =>
      if c = '\\' ∨ c.toNat < 32 then none
      else (string fuel rest).map fun (s, rest) => (c :: s, rest)

/-- The digits after a point, and the rest; none if there are none. -/
def places? : List Char → Option (List Char × List Char)
  | '.' :: rest =>
    let (ds, rest) := Decimal.Numeral.digits rest
    if ds.isEmpty then none else some (ds, rest)
  | _ => none

/-- An exponent and the rest; none if there is none. -/
def power? : List Char → Option (Int × List Char)
  | c :: rest =>
    if c = 'e' ∨ c = 'E' then
      let (negative, rest) := Decimal.Numeral.sign rest
      let (ds, rest) := Decimal.Numeral.digits rest
      if ds.isEmpty then none
      else
        let n : Int := Decimal.Numeral.ofDigits ds
        some (if negative then -n else n, rest)
    else none
  | [] => none

/-- The whole part of a number: a zero, or digits that do not start with one. -/
def front? : List Char → Option (List Char × List Char)
  | '0' :: rest => some (['0'], rest)
  | cs =>
    let (ds, rest) := Decimal.Numeral.digits cs
    if ds.isEmpty then none else some (ds, rest)

/-- A number and the rest. -/
def number (cs : List Char) : Except Problem (Value × List Char) :=
  let (negative, cs) := match cs with
    | '-' :: rest => (true, rest)
    | cs => (false, cs)
  match front? cs with
  | none => .error .malformed
  | some (front, rest) =>
    let (back, rest, pointed) := match places? rest with
      | some (ds, rest) => (ds, rest, true)
      | none => ([], rest, false)
    let (e, rest, scaled) := match power? rest with
      | some (e, rest) => (e, rest, true)
      | none => (0, rest, false)
    if pointed || scaled then
      let x := Decimal.closest (Decimal.Numeral.ofDigits (front ++ back)) (e - back.length)
      .ok (.real (if negative then -x else x), rest)
    -- only a whole number can be too long: with a point or an exponent it is a float
    else if Decimal.Numeral.maxDigits < front.length then .error .longNumeral
    else
      let n : Int := Decimal.Numeral.ofDigits front
      .ok (.whole (if negative then -n else n), rest)

/-- The words that stand for values. -/
def words : List (String × Value) :=
  [("null", .null), ("true", .bool true), ("false", .bool false), ("NaN", .real (0.0 / 0.0)),
   ("Infinity", .real (1.0 / 0.0)), ("-Infinity", .real (-1.0 / 0.0))]

/-- A word at the front of a text, and the rest. -/
def word? (cs : List Char) : Option (Value × List Char) :=
  words.findSome? fun (w, v) =>
    if w.toList.isPrefixOf cs then some (v, cs.drop w.length) else none

mutual

/-- A value at the front of a text, and the rest. Every step takes at least one character, so the
length of the text is fuel enough. -/
def value (depth : Nat) : Nat → List Char → Except Problem (Value × List Char)
  | 0, _ => .error .malformed
  | fuel + 1, cs =>
    match cs with
    | '"' :: rest =>
      match string rest.length rest with
      | some (s, rest) => .ok (.text (String.ofList s), rest)
      | none => .error .malformed
    | '[' :: rest =>
      -- what is too deep is found at its bracket, before what is wrong inside
      if depth = 0 then .error .tooDeep
      else match skip rest with
        | ']' :: rest => .ok (.list [], rest)
        | rest => (items (depth - 1) fuel rest).map fun (vs, rest) => (.list vs, rest)
    | '\x7b' :: rest =>
      if depth = 0 then .error .tooDeep
      else match skip rest with
        | '\x7d' :: rest => .ok (.object [], rest)
        | rest => (entries (depth - 1) fuel [] rest).map fun (es, rest) => (.object es, rest)
    | cs =>
      match word? cs with
      | some r => .ok r
      | none => number cs

/-- The items of an array up to its end, and the rest. -/
def items (depth : Nat) : Nat → List Char → Except Problem (List Value × List Char)
  | 0, _ => .error .malformed
  | fuel + 1, cs =>
    match value depth fuel cs with
    | .error e => .error e
    | .ok (v, rest) =>
      match skip rest with
      | ']' :: rest => .ok ([v], rest)
      | ',' :: rest => (items depth fuel (skip rest)).map fun (vs, rest) => (v :: vs, rest)
      | _ => .error .malformed

/-- The entries of an object up to its end, put into those read so far, and the rest. -/
def entries (depth : Nat) :
    Nat → Entries String Value → List Char → Except Problem (Entries String Value × List Char)
  | 0, _, _ => .error .malformed
  | fuel + 1, sofar, cs =>
    match cs with
    | '"' :: rest =>
      match string rest.length rest with
      | none => .error .malformed
      | some (k, rest) =>
        match skip rest with
        | ':' :: rest =>
          match value depth fuel (skip rest) with
          | .error e => .error e
          | .ok (v, rest) =>
            -- a key that came before keeps its place and gets the new value
            let sofar := Entries.put (String.ofList k) v sofar
            match skip rest with
            | '\x7d' :: rest => .ok (sofar, rest)
            | ',' :: rest => entries depth fuel sofar (skip rest)
            | _ => .error .malformed
        | _ => .error .malformed
    | _ => .error .malformed

end

/-- The value that a text holds. -/
def parse (s : String) : Except Problem Value :=
  let cs := skip s.toList
  match value maxDepth (cs.length + 1) cs with
  | .error e => .error e
  | .ok (v, rest) => if (skip rest).isEmpty then .ok v else .error .malformed

end Kanban.Json
