import TicketMarkup.Inline.Reference

/-!
# Block events

A Markdown document is read as a stream of events, one line after the other. Constructs of several
lines (code, quotes, tables, runs of list items) are bracketed by start and end events, so a reader
of the stream needs neither the lines nor the rules that recognise them.
-/

namespace TicketMarkup

/-- The checkbox of a list item and the text after it. -/
structure Task where
  checked : Bool
  body : Text
  deriving Repr, DecidableEq

/-- A list item: its nesting depth, counted from one, and its text, checkbox included. -/
structure ListItem where
  depth : Nat
  ordered : Bool
  text : Text
  task : Option Task
  deriving Repr, DecidableEq

/-- A row of a table; a header row stands right before a separator row. -/
structure TableRow where
  cells : List Text
  header : Bool
  deriving Repr, DecidableEq

/-- A block of a single line. -/
inductive Leaf
  | paragraph (text : Text)
  | heading (level : Nat) (text : Text)
  | rule
  | image (reference : Reference)
  deriving Repr, DecidableEq

/-- What a line adds to the document, or the start or end of a construct of several lines. -/
inductive Event
  | blank
  | leaf (leaf : Leaf)
  | listItem (item : ListItem)
  | listEnd
  | codeStart (language : Option Text)
  | codeLine (text : Text)
  | codeEnd
  | quoteStart
  | quoteLine (text : Text)
  | quoteEnd
  | tableStart
  | tableRow (row : TableRow)
  | tableEnd
  deriving Repr, DecidableEq

/-- An event with the number of the line that gave rise to it, counted from one. -/
structure NumberedEvent where
  line : Nat
  event : Event
  deriving Repr, DecidableEq

end TicketMarkup
