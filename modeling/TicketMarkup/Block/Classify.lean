import TicketMarkup.Block.Language
import TicketMarkup.Block.Line

/-!
# Classification of lines

A document is read line by line. What a line means depends on the construct that is open before
it, the `Context`: `Context.read` says how a line is read there, and `Context.step` answers the
reading with events and the next context. At most one construct is open at any time, and every
change of context closes the old construct first, so the events form complete blocks.
-/

namespace TicketMarkup

/-- The deepest nesting of lists; an item that is indented further stays at this depth. -/
def maxListDepth : Nat := 32

/-- The columns of indentation that nest a list item one level deeper. -/
def listIndent : Nat := 2

/-- The construct that is open between two lines. -/
inductive Context
  | idle
  | list (depth : Nat)
  | fenced
  | indented
  | quoted
  | table
  deriving Repr, DecidableEq

/-- How a line is read. -/
inductive Reading
  | openingFence (language : Option Text)
  | closingFence
  | fencedCode (text : Text)
  | indentedCode (text : Text)
  | quote (text : Text)
  | separator
  | row (row : TableRow)
  | blank
  | item (indent : Nat) (ordered : Bool) (text : Text)
  | leaf (leaf : Leaf)
  deriving Repr, DecidableEq

namespace Reading

/-- The language named by the tag of an opening fence; an empty tag names none. -/
def languageOfTag (tag : Text) : Option Text :=
  if tag = [] then none else some (canonicalLanguage tag)

/-- The reading of a line that no construct of several lines claims. -/
def ofPlainLine (line : Text) : Reading :=
  if line.isBlank then .blank
  else if let some (level, text) := Line.heading? line then .leaf (.heading level text)
  else if Line.isRule line then .leaf .rule
  else if let some (indent, ordered, text) := Line.listItem? line then
    .item (Line.indentWidth indent) ordered text
  else if let some image := Line.image? line then .leaf (.image image)
  else .leaf (.paragraph line.trimStart)

/-- The reading of a line outside fences that is not indented code. -/
def ofLine (tableOpen : Bool) (line : Text) (next : Option Text) : Reading :=
  if let some text := Line.quote? line then .quote text
  else if Line.isTableRow line tableOpen then
    if Line.isSeparator line then .separator
    else .row ⟨Line.cells line, next.any Line.isSeparator⟩
  else ofPlainLine line

end Reading

namespace Context

/-- A list item is open, so an indented item continues its list instead of being code. -/
def inList : Context → Bool
  | list _ => true
  | _ => false

/-- The depth of the open list item, zero outside lists. -/
def listDepth : Context → Nat
  | list depth => depth
  | _ => 0

/-- Reads a line in a context, with a look at the line after it. -/
def read (context : Context) (line : Text) (next : Option Text) : Reading :=
  if context = fenced then
    if Line.isClosingFence line then .closingFence else .fencedCode line
  else if let some tag := Line.openingFence? line then .openingFence (Reading.languageOfTag tag)
  else
    match Line.indentedCode? line with
    | some code =>
      if context.inList ∧ (Line.listItem? line).isSome then Reading.ofLine false line next
      else .indentedCode code
    | none => Reading.ofLine (context = table) line next

/-- The events that end the open construct. -/
def closing : Context → List Event
  | idle => []
  | list _ => [.listEnd]
  | fenced => [.codeEnd]
  | indented => [.codeEnd]
  | quoted => [.quoteEnd]
  | table => [.tableEnd]

/-- The events that go on with the construct `target`: inside it none are needed, elsewhere the
open construct ends and `start` begins the new one. -/
def entering (context target : Context) (start : Event) : List Event :=
  if context = target then [] else context.closing ++ [start]

/-- The depth of an item that is indented by so many columns: at most one deeper than the item
before it. -/
def itemDepth (context : Context) (indent : Nat) : Nat :=
  min (min (indent / listIndent + 1) (context.listDepth + 1)) maxListDepth

/-- The item that a line adds; only unordered items have checkboxes. -/
def item (context : Context) (indent : Nat) (ordered : Bool) (text : Text) : ListItem :=
  ⟨context.itemDepth indent, ordered, text, if ordered then none else Line.task? text⟩

/-- The events of a line, and the context after it. -/
def step (context : Context) : Reading → List Event × Context
  | .openingFence language => (context.closing ++ [.codeStart language], fenced)
  | .closingFence => (context.closing, idle)
  | .fencedCode text => ([.codeLine text], context)
  | .indentedCode text => (context.entering indented (.codeStart none) ++ [.codeLine text], indented)
  | .quote text => (context.entering quoted .quoteStart ++ [.quoteLine text], quoted)
  | .separator =>
    if context = indented ∨ context = quoted then (context.closing, idle) else ([], context)
  | .row row => (context.entering table .tableStart ++ [.tableRow row], table)
  | .blank => if context.inList then ([.blank], context) else (context.closing ++ [.blank], idle)
  | .item indent ordered text =>
    let item := context.item indent ordered text
    ((if context.inList then [] else context.closing) ++ [.listItem item], list item.depth)
  | .leaf leaf => (context.closing ++ [.leaf leaf], idle)

end Context

/-- The events of the lines after the first `count` ones; the construct that is open at the end is
closed there. -/
def classifyFrom (context : Context) (count : Nat) : List Text → List NumberedEvent
  | [] => context.closing.map (⟨count, ·⟩)
  | line :: rest =>
    let (events, context) := context.step (context.read line rest.head?)
    events.map (⟨count + 1, ·⟩) ++ classifyFrom context (count + 1) rest

/-- The events of a Markdown document. -/
def classify (markdown : Text) : List NumberedEvent :=
  classifyFrom .idle 0 markdown.lines

end TicketMarkup
