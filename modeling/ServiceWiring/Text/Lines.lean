import ServiceWiring.Text.Blank

/-!
# Lines of a text

A line ends with a line feed; a carriage return directly in front of that line feed belongs
to the line end.  A last line without a line feed counts unless it is empty, and it keeps a
carriage return at its end.
-/

namespace ServiceWiring.Text

/-- A line without the carriage return of its line end. -/
def dropReturn (line : List Char) : List Char :=
  if line.getLast? = some '\r' then line.dropLast else line

/-- The lines of a text. -/
def lines (cs : List Char) : List (List Char) :=
  let parts := splitWhere (· == '\n') cs
  parts.dropLast.map dropReturn ++ parts.getLast?.toList.filter fun line => !line.isEmpty

/-- The lines of a string. -/
def linesOf (s : String) : List String :=
  (lines s.toList).map String.ofList

/-- The text of a list of lines, each ended by a line feed. -/
def unlines (ls : List String) : String :=
  ls.foldr (fun line rest => line ++ "\n" ++ rest) ""

end ServiceWiring.Text
