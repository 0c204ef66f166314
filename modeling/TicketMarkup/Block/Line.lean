import TicketMarkup.Block.Event
import TicketMarkup.Text.Digit
import TicketMarkup.Text.Lines

/-!
# The forms of a line

Recognisers for the forms that a single line can have, each on its own: fences, indented code,
quotes, table rows, headings, rules, list items and images. None of them looks at another line or
at the construct that is open; `TicketMarkup.Block.Classify` says which form wins where.
-/

namespace TicketMarkup.Line

/-- The tag of a line that opens a fence: three backticks or more, and none after the tag. -/
def openingFence? (line : Text) : Option Text :=
  let fence := line.trimStart
  let rest := fence.dropWhile (· == '`')
  if 3 ≤ (fence.takeWhile (· == '`')).length ∧ '`' ∉ rest then
    some ((Text.trimStart rest).takeWhile (!isBlank ·))
  else none

/-- A line of three backticks or more, with nothing else but blanks around them. -/
def isClosingFence (line : Text) : Bool :=
  let fence := line.trimStart
  3 ≤ (fence.takeWhile (· == '`')).length && Text.isBlank (fence.dropWhile (· == '`'))

/-- The code of a line that is not blank and starts with four spaces or a tab. -/
def indentedCode? (line : Text) : Option Text :=
  if line.isBlank then none
  else
    match line with
    | ' ' :: ' ' :: ' ' :: ' ' :: code => some code
    | '\t' :: code => some code
    | _ => none

/-- The text of a quoted line: what follows the mark and one blank after it. -/
def quote? (line : Text) : Option Text :=
  match line.trimStart with
  | '>' :: c :: rest => some (if isBlank c then rest else c :: rest)
  | '>' :: [] => some []
  | _ => none

/-- A row of pipes, dashes, colons, spaces and tabs with a pipe and a dash among them. -/
def isSeparator (line : Text) : Bool :=
  let t := line.trim
  t.contains '|' && t.contains '-' && t.all fun c => c ∈ ['|', '-', ':', ' ', '\t']

/-- A line that starts and ends with a pipe, or one with any pipe while a table is open. -/
def isTableRow (line : Text) (tableOpen : Bool) : Bool :=
  let t := line.trim
  line.contains '|' &&
    (tableOpen || (2 ≤ t.length && t.head? == some '|' && t.getLast? == some '|'))

/-- The cells of a row: the trimmed texts between its pipes, an outer pipe at either end aside. -/
def cells (line : Text) : List Text :=
  let t := line.trim
  let t := if t.head? = some '|' then t.tail else t
  (Text.splitOn '|' (Text.dropSuffix ['|'] t)).map Text.trim

/-- The text of a heading without a closing run of `#` that a blank sets off. -/
def headingText (t : Text) : Text :=
  let body := t.trim
  let stem := Text.dropEndWhile (· == '#') body
  if stem.length < body.length ∧ stem.getLast?.any isBlank then stem.trimEnd else body

/-- The level and text of a heading: one to six `#`, and a blank after them. -/
def heading? (line : Text) : Option (Nat × Text) :=
  let t := line.trimStart
  let level := (t.takeWhile (· == '#')).length
  let rest := t.dropWhile (· == '#')
  if 1 ≤ level ∧ level ≤ 6 ∧ rest.head?.any isBlank then some (level, headingText rest) else none

/-- A line of three or more of the same mark, one of `*`, `-` and `_`, blanks aside. -/
def isRule (line : Text) : Bool :=
  match line.filter (!isBlank ·) with
  | c :: rest => c ∈ ['*', '-', '_'] && 2 ≤ rest.length && rest.all (· == c)
  | [] => false

/-- What follows the marker of a list item, and whether the marker is a number. -/
def marker? (t : Text) : Option (Bool × Text) :=
  match t with
  | c :: rest =>
    if c ∈ ['-', '*', '+'] then some (false, rest)
    else if isDigit c then
      match rest.dropWhile isDigit with
      | '.' :: rest => some (true, rest)
      | _ => none
    else none
  | [] => none

/-- The indentation, kind and text of a list item; a blank follows its marker. -/
def listItem? (line : Text) : Option (Text × Bool × Text) :=
  match marker? line.trimStart with
  | some (ordered, rest) =>
    if rest.head?.any isBlank then some (line.takeWhile isBlank, ordered, Text.trimStart rest)
    else none
  | none => none

/-- The columns of an indentation: four for a tab, one for any other blank. -/
def indentWidth : Text → Nat
  | [] => 0
  | c :: rest => (if c = '\t' then 4 else 1) + indentWidth rest

/-- The checkbox at the start of an item's text. -/
def task? (text : Text) : Option Task :=
  match text with
  | '[' :: mark :: ']' :: rest =>
    if mark ∈ [' ', 'x', 'X'] ∧ rest.head?.any isBlank then some ⟨mark != ' ', Text.trimStart rest⟩
    else none
  | _ => none

/-- The image that makes up the whole line, blanks around it aside. -/
def image? (line : Text) : Option Reference :=
  match line.trimStart with
  | '!' :: t =>
    match Reference.read? .image t with
    | some s => if Text.isBlank (t.drop s.text.length) then some s.reference else none
    | none => none
  | _ => none

end TicketMarkup.Line
