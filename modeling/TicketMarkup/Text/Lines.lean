import TicketMarkup.Text.Basic

/-!
# Lines

Cutting a text at a separator, and into its lines. A line ends at a line feed, and a carriage
return right before the line feed belongs to the line's end. The last line needs no end: a
carriage return that nothing follows stays in it, and a final line feed starts no further line.
-/

namespace TicketMarkup.Text

/-- Puts a character in front of the first of some pieces. -/
def consFirst (c : Char) : List Text → List Text
  | [] => [[c]]
  | piece :: rest => (c :: piece) :: rest

/-- The pieces of a text between the occurrences of a separator; there is always one. -/
def splitOn (sep : Char) : Text → List Text
  | [] => [[]]
  | c :: rest => if c = sep then [] :: splitOn sep rest else consFirst c (splitOn sep rest)

/-- The lines among the pieces between line feeds. -/
def closeLines : List Text → List Text
  | [] => []
  | [last] => if last.isEmpty then [] else [last]
  | line :: rest => dropSuffix ['\r'] line :: closeLines rest

/-- The lines of a text, without their ends. -/
def lines (t : Text) : List Text := closeLines (splitOn '\n' t)

/-- The lines one under the other, with a line feed between neighbours. -/
def unlines (ls : List Text) : Text := join ['\n'] ls

/-- The pieces of a text between its double line feeds, each found as early as possible. -/
def paragraphs : Text → List Text
  | [] => [[]]
  | '\n' :: '\n' :: rest => [] :: paragraphs rest
  | c :: rest => consFirst c (paragraphs rest)

end TicketMarkup.Text
