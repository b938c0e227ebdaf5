import Kanban.Text.Split

/-!
# Kanban.Http.Target — request targets

A target is a path and a query. Both are written with percent signs for bytes; in the query a
plus sign stands for a blank. Bytes that are no text become replacement characters.
-/

namespace Kanban.Http

/-- The value of a hexadecimal digit. -/
def hexValue? (c : Char) : Option Nat :=
  if c.isDigit then some (c.toNat - 48)
  else if 'a' ≤ c ∧ c ≤ 'f' then some (c.toNat - 87)
  else if 'A' ≤ c ∧ c ≤ 'F' then some (c.toNat - 55)
  else none

/-- The bytes that a text with percent signs stands for. -/
def unescape : List Char → List UInt8
  | '%' :: a :: b :: rest =>
    match hexValue? a, hexValue? b with
    | some x, some y => UInt8.ofNat (16 * x + y) :: unescape rest
    | _, _ => 37 :: unescape (a :: b :: rest)
  | c :: rest => (String.singleton c).toUTF8.toList ++ unescape rest
  | [] => []

/-- The text that bytes stand for; what is no text becomes replacement characters. `fuel` bounds
the number of bytes. -/
def decodeText : Nat → List UInt8 → List Char
  | 0, _ => []
  | _ + 1, [] => []
  | fuel + 1, b :: rest =>
    -- the first byte tells how many belong to the character
    let width := if b < 0x80 then 1 else if b < 0xe0 then 2 else if b < 0xf0 then 3 else 4
    match String.fromUTF8? (ByteArray.mk ((b :: rest).take width).toArray) with
    | some s => s.toList ++ decodeText fuel ((b :: rest).drop width)
    | none => '\ufffd' :: decodeText fuel rest

/-- The text that a text with percent signs stands for. -/
def unquote (cs : List Char) : String :=
  let bytes := unescape cs
  String.ofList (decodeText bytes.length bytes)

/-- A request target. -/
structure Target where
  path : String
  query : List (String × String)

namespace Target

/-- One part of a query. -/
def pair (cs : List Char) : String × String :=
  let blank (cs : List Char) : List Char := cs.map fun c => if c = '+' then ' ' else c
  (unquote (blank (cs.takeWhile (· ≠ '='))), unquote (blank ((cs.dropWhile (· ≠ '=')).drop 1)))

/-- A target from the way it is written. -/
def ofString (s : String) : Target :=
  let cs := s.toList
  let query := (cs.dropWhile (· ≠ '?')).drop 1
  { path := unquote (cs.takeWhile (· ≠ '?'))
    query := ((Text.splitList '&' query).filter (· ≠ [])).map pair }

/-- The last value of a name in the query. -/
def query? (name : String) (t : Target) : Option String :=
  (t.query.reverse.find? (·.1 == name)).map (·.2)

end Target

end Kanban.Http
