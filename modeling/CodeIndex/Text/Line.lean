namespace CodeIndex.Text

variable {α : Type} [DecidableEq α]

def splitFirst (sep : α) : List α → List α × Option (List α)
  | [] => ([], none)
  | c :: cs =>
    if c = sep then ([], some cs)
    else
      let (before, after) := splitFirst sep cs
      (c :: before, after)

def splitOn (sep : α) : List α → List (List α)
  | [] => [[]]
  | c :: cs =>
    if c = sep then [] :: splitOn sep cs
    else match splitOn sep cs with
      | [] => [[c]]
      | piece :: more => (c :: piece) :: more

def dropFinal (mark : α) (line : List α) : List α :=
  match line.reverse with
  | c :: rest => if c = mark then rest.reverse else line
  | [] => line

/-- The lines of pieces between line feeds: each loses the mark at its end, except the last, which
has no line feed and counts only if it is not empty. -/
def linesOfPieces (mark : α) : List (List α) → List (List α)
  | [] => []
  | [last] => if last.isEmpty then [] else [last]
  | piece :: more => dropFinal mark piece :: linesOfPieces mark more

def lines (s : String) : List String :=
  (linesOfPieces '\r' (splitOn '\n' s.toList)).map String.ofList

def firstLine (s : String) : String := (lines s).headD ""

end CodeIndex.Text
