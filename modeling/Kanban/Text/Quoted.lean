import Kanban.Text.Printable

/-!
# Kanban.Text.Quoted — text in quotes, for messages

A text is shown between apostrophes, or between quotation marks if it has apostrophes and no
quotation marks. Backslashes, the chosen quote and everything unprintable are escaped.
-/

namespace Kanban.Text

/-- A number in lower-case hexadecimal with at least `n` digits. -/
def hex (n : Nat) (code : Nat) : List Char :=
  let ds := Nat.toDigits 16 code
  List.replicate (n - ds.length) '0' ++ ds

/-- How a character is shown between the given quotes. -/
def escape (quote c : Char) : List Char :=
  if c = quote ∨ c = '\\' then ['\\', c]
  else if c = '\n' then ['\\', 'n']
  else if c = '\r' then ['\\', 'r']
  else if c = '\t' then ['\\', 't']
  else if isPrintable c then [c]
  else if c.toNat < 0x100 then '\\' :: 'x' :: hex 2 c.toNat
  else if c.toNat < 0x10000 then '\\' :: 'u' :: hex 4 c.toNat
  else '\\' :: 'U' :: hex 8 c.toNat

/-- A text in quotes. -/
def quote (s : String) : String :=
  let cs := s.toList
  let q := if cs.contains '\'' && !cs.contains '"' then '"' else '\''
  String.ofList (q :: cs.flatMap (escape q) ++ [q])

end Kanban.Text
