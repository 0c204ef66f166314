import TicketMarkup.Block.Event
import TicketMarkup.Json.Printer

/-!
# Inspection of events

How the events of a document are shown: as JSON, one object for each event, or as a table of line
number, kind and a short detail.
-/

namespace TicketMarkup

/-! ## As JSON -/

/-- The string of a text, or null if there is none. -/
def Json.ofText? : Option Text → Json
  | some t => .ofText t
  | none => .null

/-- A task with the names of its fields. -/
def Task.toJson (task : Task) : Json :=
  .object [("checked", .bool task.checked), ("body", .ofText task.body)]

namespace Event

/-- The name of the kind of an event. -/
def kind : Event → String
  | blank => "blank"
  | leaf (.paragraph _) => "paragraph"
  | leaf (.heading _ _) => "heading"
  | leaf .rule => "rule"
  | leaf (.image _) => "image"
  | listItem _ => "list_item"
  | listEnd => "list_end"
  | codeStart _ => "code_start"
  | codeLine _ => "code_line"
  | codeEnd => "code_end"
  | quoteStart => "quote_start"
  | quoteLine _ => "quote_line"
  | quoteEnd => "quote_end"
  | tableStart => "table_start"
  | tableRow _ => "table_row"
  | tableEnd => "table_end"

/-- The data of an event, as the fields of an object. -/
def fields : Event → List (String × Json)
  | leaf (.paragraph text) | codeLine text | quoteLine text => [("text", .ofText text)]
  | leaf (.heading level text) => [("level", .ofNat level), ("text", .ofText text)]
  | leaf (.image image) =>
    [("alt", .ofText image.label), ("src", .ofText image.target), ("title", .ofText? image.title)]
  | listItem item =>
    [("depth", .ofNat item.depth), ("ordered", .bool item.ordered), ("text", .ofText item.text),
      ("task", (item.task.map Task.toJson).getD .null)]
  | codeStart language => [("language", .ofText? language)]
  | tableRow row => [("cells", .array (row.cells.map .ofText)), ("header", .bool row.header)]
  | blank | leaf .rule | listEnd | codeEnd | quoteStart | quoteEnd | tableStart | tableEnd => []

/-! ## As a table -/

/-- The short detail of a list item: its kind, depth, checkbox and text. -/
def itemDetail (item : ListItem) : Text :=
  let list := (if item.ordered then "ordered" else "bullet").toList
  let place := list ++ " depth=".toList ++ Text.ofNat item.depth ++ [' ']
  match item.task with
  | some task => place ++ ['[', if task.checked then 'x' else ' ', ']', ' '] ++ task.body
  | none => place ++ item.text

/-- The short detail of an event; empty for events without data. -/
def detail : Event → Text
  | leaf (.paragraph text) | codeLine text | quoteLine text => text
  | leaf (.heading level text) => 'h' :: Text.ofNat level ++ ' ' :: text
  | leaf (.image image) => image.target ++ [' ', '('] ++ image.label ++ [')']
  | listItem item => itemDetail item
  | codeStart (some language) => language
  | tableRow row =>
    (if row.header then "header: ".toList else []) ++ Text.join " | ".toList row.cells
  | _ => []

end Event

/-- An event as an object: line number, kind, data. -/
def NumberedEvent.toJson (e : NumberedEvent) : Json :=
  .object (("line", .ofNat e.line) :: ("event", .string e.event.kind) :: e.event.fields)

namespace Inspection

/-- The events as a JSON array. -/
def json (events : List NumberedEvent) : Json := .array (events.map NumberedEvent.toJson)

/-- A row of the table. -/
structure Row where
  line : Text
  kind : Text
  detail : Text

/-- The row of an event. -/
def row (e : NumberedEvent) : Row := ⟨Text.ofNat e.line, e.event.kind.toList, e.event.detail⟩

/-- The first row, which names the columns. -/
def header : Row := ⟨"Line".toList, "Event".toList, "Detail".toList⟩

/-- A text filled with spaces up to a width. -/
def pad (width : Nat) (t : Text) : Text := t ++ List.replicate (width - t.length) ' '

/-- The length of the longest of some texts. -/
def widest (texts : List Text) : Nat := texts.foldl (fun w t => max w t.length) 0

/-- A row as a line: each cell between spaces, the first two columns filled to their widths. -/
def Row.text (lineWidth kindWidth : Nat) (r : Row) : Text :=
  ' ' :: pad lineWidth r.line ++ ' ' :: ' ' :: pad kindWidth r.kind ++ ' ' :: ' ' :: r.detail
    ++ [' ', '\n']

/-- The table of the events, each row ended by a line feed. -/
def table (events : List NumberedEvent) : Text :=
  let rows := header :: events.map row
  rows.flatMap (Row.text (widest (rows.map Row.line)) (widest (rows.map Row.kind)))

end Inspection

end TicketMarkup
