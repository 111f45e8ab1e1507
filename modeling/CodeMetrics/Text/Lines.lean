/-! Lines of a text. A line ends at a line feed; a carriage return right before it belongs to the
    ending, and a text that ends with a line feed has no empty line after it. -/

namespace CodeMetrics

/-- The pieces between line feeds, at least one. -/
def splitAtNewlines : List Char → List (List Char)
  | [] => [[]]
  | c :: cs =>
    if c = '\n' then [] :: splitAtNewlines cs
    else match splitAtNewlines cs with
      | [] => [[c]]
      | piece :: pieces => (c :: piece) :: pieces

/-- A line without the carriage return of its ending. -/
def dropReturn (line : List Char) : List Char :=
  if line.getLast? = some '\r' then line.dropLast else line

/-- The lines of a text. Only a line feed takes a carriage return with it. -/
def linesOf (s : String) : List (List Char) :=
  let pieces := splitAtNewlines s.toList
  let closed := pieces.dropLast.map dropReturn
  match pieces.getLast? with
  | none | some [] => closed
  | some last => closed ++ [last]

end CodeMetrics
