/-!
# Lines of a text
-/

namespace DocScript.Text

/-- Takes a carriage return off the end of a line. -/
def dropReturn (line : List Char) : List Char :=
  if line.getLast? = some '\r' then line.dropLast else line

/-- The lines of characters. `line` is the beginning of the line that is being read, its last
character first. A line that is not ended counts unless it is empty. -/
def linesFrom (line : List Char) : List Char → List (List Char)
  | [] => if line.isEmpty then [] else [line.reverse]
  | '\n' :: rest => dropReturn line.reverse :: linesFrom [] rest
  | c :: rest => linesFrom (c :: line) rest

/-- The lines of a text. A line feed ends a line, together with a carriage return before it. -/
def lines (text : String) : List String := (linesFrom [] text.toList).map String.ofList

end DocScript.Text
