/-!
# Lines of a text

`pieces` cuts a text at a separator and keeps empty pieces. `physicalLines` lists the lines as a
reader of the file counts them: a final line break opens no further line, and a carriage return
that stands before a line break belongs to the break.
-/

namespace Extractor.Text

def pieces (sep : Char) (s : String) : List String := (s.toList.splitOn sep).map String.ofList

def dropCarriageReturn (line : List Char) : List Char :=
  (['\r'].isSuffixOf? line).getD line

/-- Lines among the pieces between line breaks; only the last piece has no break after it. -/
def physicalLinesOf : List (List Char) → List (List Char)
  | [] => []
  | [last] => if last.isEmpty then [] else [last]
  | line :: next :: rest => dropCarriageReturn line :: physicalLinesOf (next :: rest)

def physicalLines (s : String) : List String :=
  (physicalLinesOf (s.toList.splitOn '\n')).map String.ofList

end Extractor.Text
