import TicketMarkup.Block.Classify
import TicketMarkup.Inline.Run

/-!
# Wiki markup

A document in the wiki markup of the tracker: each event that shows something is one line.
-/

namespace TicketMarkup.Wiki

mutual

/-- A run in wiki markup. -/
def ofRun : Run → Text
  | .text t => t
  | .strong inner => '*' :: ofRuns inner ++ ['*']
  | .emphasis inner => '_' :: ofRuns inner ++ ['_']
  | .strike inner => '-' :: ofRuns inner ++ ['-']
  | .code t => ['\x7b', '\x7b'] ++ t ++ ['\x7d', '\x7d']
  | .link reference =>
    if reference.label = [] then '[' :: reference.target ++ [']']
    else '[' :: reference.label ++ '|' :: reference.target ++ [']']
  | .image reference => '!' :: reference.target ++ ['!']
  | .lineBreak => ['\\', '\\']

/-- Runs in wiki markup, one after the other. -/
def ofRuns : List Run → Text
  | [] => []
  | run :: rest => ofRun run ++ ofRuns rest

end

/-- The inline markup of a line in wiki markup. -/
def ofInline (line : Text) : Text := ofRuns (Run.ofLine line)

/-- A macro tag, with an argument if there is one. -/
def tag (name : String) (argument : Option Text) : Text :=
  '\x7b' :: name.toList ++ (match argument with | none => [] | some a => ':' :: a) ++ ['\x7d']

/-- A list item: one marker for each level, the mark of a checked box, and the text. -/
def ofListItem (item : ListItem) : Text :=
  let markers := List.replicate item.depth (if item.ordered then '#' else '*') ++ [' ']
  match item.task with
  | some ⟨true, body⟩ => markers ++ "(/) ".toList ++ ofInline body
  | some ⟨false, body⟩ => markers ++ ofInline body
  | none => markers ++ ofInline item.text

/-- A row of a table; the cells of a header stand between double pipes. -/
def ofTableRow (row : TableRow) : Text :=
  let pipe := if row.header then ['|', '|'] else ['|']
  pipe ++ Text.join pipe row.cells ++ pipe

/-- The line of an event; the ends of lists and both ends of tables show nothing. -/
def ofEvent? : Event → Option Text
  | .blank => some []
  | .leaf (.paragraph text) => some (ofInline text)
  | .leaf (.heading level text) => some ('h' :: Text.ofNat level ++ ['.', ' '] ++ ofInline text)
  | .leaf .rule => some ['-', '-', '-', '-']
  | .leaf (.image reference) => some ('!' :: reference.target ++ ['!'])
  | .listItem item => some (ofListItem item)
  | .codeStart language => some (tag "code" language)
  | .codeLine text => some text
  | .codeEnd => some (tag "code" none)
  | .quoteStart => some (tag "quote" none)
  | .quoteLine text => some text
  | .quoteEnd => some (tag "quote" none)
  | .tableRow row => some (ofTableRow row)
  | .listEnd | .tableStart | .tableEnd => none

/-- The lines of events. -/
def ofEvents (events : List NumberedEvent) : List Text :=
  events.filterMap fun e => ofEvent? e.event

/-- A Markdown document in wiki markup. -/
def ofMarkdown (markdown : Text) : Text := Text.unlines (ofEvents (classify markdown))

end TicketMarkup.Wiki
