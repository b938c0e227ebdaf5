/-!
# Kanban.Text.Split — cutting text at a character

There is one part more than there are separators; parts may be empty.
-/

namespace Kanban.Text

/-- The parts of a list between separators. -/
def splitList (sep : Char) : List Char → List (List Char)
  | [] => [[]]
  | c :: rest =>
    if c = sep then [] :: splitList sep rest
    else
      match splitList sep rest with
      | [] => [[c]]
      | part :: parts => (c :: part) :: parts

/-- The parts of a text between separators. -/
def split (sep : Char) (s : String) : List String := (splitList sep s.toList).map String.ofList

end Kanban.Text
