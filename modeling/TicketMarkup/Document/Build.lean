import TicketMarkup.Block.Classify
import TicketMarkup.Document.Inline

/-!
# Documents from Markdown

A document is built from the events of a text, one block after the other. A block of several lines
stays open while its events come in. An open list knows its last item, which can still take nested
lists; the open lists form a stack, innermost first, and each but the outermost belongs to the last
item of the one below it.
-/

namespace TicketMarkup

namespace Leaf

/-- The node of a block of a single line. -/
def node : Leaf → Node
  | paragraph text => Node.paragraphOfLine text
  | heading level text => .heading level.toUInt8 (Node.ofLine text)
  | rule => .rule
  | image reference =>
    let alt := if reference.label = [] then none else some reference.label
    .container .mediaSingle [.media ⟨reference.target, alt, reference.title⟩]

end Leaf

/-! ## Open lists -/

/-- A list whose last item is open: the items before it, its text, and the lists inside it. Items
and lists are kept latest first. -/
structure OpenList where
  ordered : Bool
  items : List Node
  text : Text
  nested : List Node
  deriving Repr

namespace OpenList

/-- A list of one item. -/
def start (item : ListItem) : OpenList := ⟨item.ordered, [], item.text, []⟩

/-- The last item as a node. -/
def lastItem (l : OpenList) : Node :=
  .container .listItem (Node.paragraphOfLine l.text :: l.nested.reverse)

/-- The list as a node. -/
def node (l : OpenList) : Node :=
  .container (Node.listKind l.ordered) (l.lastItem :: l.items).reverse

/-- The list with a further item. -/
def addItem (l : OpenList) (item : ListItem) : OpenList :=
  { l with items := l.lastItem :: l.items, text := item.text, nested := [] }

/-- The list with a further list inside its last item. -/
def nest (l : OpenList) (list : Node) : OpenList := { l with nested := list :: l.nested }

/-- Closes the innermost lists until at most `depth` lists, but at least one, are open. -/
def closeTo (depth : Nat) : List OpenList → List OpenList
  | inner :: outer :: rest =>
    if depth ≤ rest.length + 1 then closeTo depth (outer.nest inner.node :: rest)
    else inner :: outer :: rest
  | stack => stack
termination_by stack => stack.length

/-- The list that ends and the lists that are open when an item comes in. An item of the other kind
ends the list of its depth and starts a new one in its place. -/
def addToStack (item : ListItem) (stack : List OpenList) : List Node × List OpenList :=
  match closeTo item.depth stack with
  | [] => ([], [start item])
  | l :: below =>
    if below.length + 1 < item.depth then ([], start item :: l :: below)
    else if l.ordered = item.ordered then ([], l.addItem item :: below)
    else
      match below with
      | [] => ([l.node], [start item])
      | outer :: rest => ([], start item :: outer.nest l.node :: rest)

/-- The outermost list of a stack as a node, with all lists inside it. -/
def closeAll (stack : List OpenList) : List Node := (closeTo 1 stack).map node

end OpenList

/-! ## Blocks -/

/-- A row of a table as a node: each cell holds one paragraph. -/
def TableRow.node (row : TableRow) : Node :=
  .container .tableRow
    (row.cells.map fun cell => .container .tableCell [Node.paragraphOfLine cell])

/-- The block that is open, with its parts so far, latest first. -/
inductive OpenBlock
  | none
  | code (language : Option Text) (lines : List Text)
  | quote (paragraphs : List Node)
  | table (rows : List Node)
  | lists (stack : List OpenList)
  deriving Repr

namespace OpenBlock

/-- The finished block; a quote without text holds one empty paragraph. -/
def nodes : OpenBlock → List Node
  | none => []
  | code language lines => [.codeBlock language [.plain (Text.unlines lines.reverse)]]
  | quote [] => [.container .blockquote [.container .paragraph (Node.orEmptyText [])]]
  | quote paragraphs => [.container .blockquote paragraphs.reverse]
  | table rows => [.container .table rows.reverse]
  | lists stack => OpenList.closeAll stack

/-- The stack of open lists. -/
def stack : OpenBlock → List OpenList
  | lists stack => stack
  | _ => []

/-- Takes a line into the open block. -/
def addLine (b : OpenBlock) (event : Event) : OpenBlock :=
  match event, b with
  | .codeLine text, code language lines => code language (text :: lines)
  | .quoteLine text, quote paragraphs =>
    if text.isBlank then b else quote (Node.paragraphOfLine text :: paragraphs)
  | .tableRow row, table rows => table (row.node :: rows)
  | _, _ => b

/-- The blocks that an event finishes, and the block that is open after it. -/
def step (b : OpenBlock) (event : Event) : List Node × OpenBlock :=
  match event with
  | .blank => ([], b)
  | .leaf leaf => (b.nodes ++ [leaf.node], none)
  | .codeStart language => (b.nodes, code language [])
  | .quoteStart => (b.nodes, quote [])
  | .tableStart => (b.nodes, table [])
  | .codeLine _ | .quoteLine _ | .tableRow _ => ([], b.addLine event)
  | .listItem item =>
    let (finished, stack) := OpenList.addToStack item b.stack
    (finished, lists stack)
  | .codeEnd | .quoteEnd | .tableEnd | .listEnd => (b.nodes, none)

/-- The blocks of a stream of events that begins inside a block. -/
def blocks (b : OpenBlock) : List Event → List Node
  | [] => b.nodes
  | event :: rest =>
    let (finished, b) := b.step event
    finished ++ blocks b rest

end OpenBlock

namespace Document

/-- The document of a stream of events. -/
def ofEvents (events : List Event) : Document := ofContent (OpenBlock.none.blocks events)

/-- The document of a Markdown text. -/
def ofMarkdown (markdown : Text) : Document :=
  ofEvents ((classify markdown).map NumberedEvent.event)

end Document

end TicketMarkup
