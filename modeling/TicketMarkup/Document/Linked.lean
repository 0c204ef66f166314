import TicketMarkup.Document.Build

/-!
# Documents whose nodes are linked by number

The document of a stream of events, built another way: every node has a slot with a number from the
start, and a node is put into another by noting its number there. Open lists, tables and quotes are
known by their numbers, so a list item can be the last one of its list and take further lists at the
same time. Only at the end are the nodes taken out of their slots and put together.

The events may come in any order, and what they leave open is closed at the end.
-/

namespace TicketMarkup

/-- The node with further nodes behind its content, if it is of a kind that has content. -/
def Node.extend (n : Node) (more : List Node) : Node :=
  match n with
  | container kind content => container kind (content ++ more)
  | heading level content => heading level (content ++ more)
  | codeBlock language content => codeBlock language (content ++ more)
  | media _ | text _ _ | rule | hardBreak => n

/-- A list item without lists inside it. -/
def Node.itemOfLine (text : Text) : Node := .container .listItem [paragraphOfLine text]

/-! ## The arena -/

/-- A place for a node, until the node is taken out, and the numbers of the nodes linked below it. -/
structure Slot where
  node : Option Node
  children : List Nat
  deriving Repr

/-- A slot that nothing is left in. -/
def Slot.empty : Slot := ⟨none, []⟩

/-- The slots of a document, each known by its number. -/
abbrev Arena := List Slot

namespace Arena

/-- Gives a node the next free number. -/
def alloc (a : Arena) (n : Node) : Arena := a ++ [⟨some n, []⟩]

/-- Links a node below another. -/
def append (a : Arena) (parent child : Nat) : Arena :=
  a.modify parent fun slot => { slot with children := slot.children ++ [child] }

/-- The numbers of the nodes that are linked below the one with a number. -/
def children (a : Arena) (id : Nat) : List Nat := (a[id]?.map Slot.children).getD []

/-- The number of slots that hold a node. -/
def countFull (a : Arena) : Nat := a.countP (·.node.isSome)

theorem countFull_set_lt {a : Arena} {id : Nat} {node : Node} {children : List Nat}
    (h : a[id]? = some ⟨some node, children⟩) : countFull (a.set id .empty) < a.countFull := by
  obtain ⟨hid, hslot⟩ := List.getElem?_eq_some_iff.1 h
  have hpos : 0 < a.countFull :=
    List.countP_pos_iff.2 ⟨a[id], List.getElem_mem hid, by rw [hslot]; rfl⟩
  rw [countFull, List.countP_set hid, hslot]
  show a.countFull - 1 + 0 < a.countFull
  omega

/-- `takeTrees`, with the bound on the slots left that makes it end, however they are linked. -/
def takeTreesBounded (a : Arena) : List Nat → List Node × { b : Arena // b.countFull ≤ a.countFull }
  | [] => ([], ⟨a, Nat.le_refl _⟩)
  | id :: ids =>
    match h : a[id]? with
    | some ⟨some node, children⟩ =>
      have hlt := countFull_set_lt h
      let below := takeTreesBounded (a.set id .empty) children
      let more := takeTreesBounded below.2.1 ids
      (node.extend below.1 :: more.1,
        ⟨more.2.1, Nat.le_trans more.2.2 (Nat.le_trans below.2.2 (Nat.le_of_lt hlt))⟩)
    | _ => takeTreesBounded a ids
termination_by ids => (a.countFull, ids.length)
decreasing_by
  · exact .left _ _ hlt
  · exact .left _ _ (Nat.lt_of_le_of_lt below.2.2 hlt)
  · exact .right _ (Nat.lt_succ_self _)

/-- Takes the nodes with some numbers out of their slots, each with all nodes that are linked below
it. A slot that is empty, or that there is not, gives nothing. -/
def takeTrees (a : Arena) (ids : List Nat) : List Node × Arena :=
  ((a.takeTreesBounded ids).1, (a.takeTreesBounded ids).2.1)

theorem takeTrees_nil (a : Arena) : a.takeTrees [] = ([], a) := by
  rw [takeTrees, takeTreesBounded]

/-- A node is taken out of its slot first, then what is linked below it, then the other nodes. -/
theorem takeTrees_cons {a : Arena} {id : Nat} {node : Node} {children : List Nat}
    (h : a[id]? = some ⟨some node, children⟩) (ids : List Nat) :
    a.takeTrees (id :: ids) =
      let below := takeTrees (a.set id .empty) children
      let more := below.2.takeTrees ids
      (node.extend below.1 :: more.1, more.2) := by
  rw [takeTrees, takeTreesBounded]
  split
  · next node' children' h' =>
    obtain ⟨rfl, rfl⟩ : node = node' ∧ children = children' := by simpa [h] using h'
    rfl
  · next hne => exact absurd h (hne node children)

end Arena

/-! ## Growing a document -/

/-- An open list: its number, its kind, and the number of its last item. -/
structure ListLinks where
  list : Nat
  ordered : Bool
  lastItem : Option Nat
  deriving Repr, DecidableEq

/-- A document that grows: its nodes, the numbers of its blocks, and what is open. The open lists
form a stack, innermost first. -/
structure LinkedDocument where
  arena : Arena := []
  roots : List Nat := []
  lists : List ListLinks := []
  table : Option Nat := none
  quote : Option Nat := none
  code : Option (Option Text × List Text) := none
  deriving Repr

namespace LinkedDocument

/-- Adds a node below another, or as a block. -/
def plant (d : LinkedDocument) (parent : Option Nat) (n : Node) : LinkedDocument :=
  match parent with
  | some id => { d with arena := (d.arena.alloc n).append id d.arena.length }
  | none => { d with arena := d.arena.alloc n, roots := d.roots ++ [d.arena.length] }

/-! ### Lists -/

/-- The depth at which an item comes in: at least one, and at most one deeper than the open lists. -/
def clampDepth (d : LinkedDocument) (depth : Nat) : Nat := max 1 (min depth (d.lists.length + 1))

/-- Closes the innermost lists until at most `depth` lists are open. -/
def closeDeeper (d : LinkedDocument) (depth : Nat) : LinkedDocument :=
  { d with lists := d.lists.drop (d.lists.length - depth) }

/-- Closes the list at `depth` if it is of the other kind. -/
def closeOtherKind (d : LinkedDocument) (depth : Nat) (ordered : Bool) : LinkedDocument :=
  if d.lists.length = depth ∧ d.lists.head?.any (·.ordered != ordered) then
    { d with lists := d.lists.tail }
  else d

/-- The number of the node that takes the next list: the last item of the innermost list. -/
def listParent (d : LinkedDocument) : Option Nat := d.lists.head?.map fun l => l.lastItem.getD l.list

/-- Opens a list unless `depth` lists are open. -/
def openList (d : LinkedDocument) (depth : Nat) (ordered : Bool) : LinkedDocument :=
  if d.lists.length < depth then
    let opened := d.plant d.listParent (.container (Node.listKind ordered) [])
    { opened with lists := ⟨d.arena.length, ordered, none⟩ :: d.lists }
  else d

/-- Adds an item to the innermost list. -/
def plantItem (d : LinkedDocument) (text : Text) : LinkedDocument :=
  match d.lists with
  | [] => { d with arena := d.arena.alloc (.itemOfLine text) }
  | l :: below =>
    { d.plant (some l.list) (.itemOfLine text) with
      lists := { l with lastItem := some d.arena.length } :: below }

/-- Adds a list item: deeper lists are closed, and a list is opened if none of its depth and kind is
open. -/
def addItem (d : LinkedDocument) (item : ListItem) : LinkedDocument :=
  let depth := d.clampDepth item.depth
  (((d.closeDeeper depth).closeOtherKind depth item.ordered).openList depth item.ordered).plantItem
    item.text

/-! ### Other blocks -/

/-- Closes the code, which becomes a block. -/
def closeCode (d : LinkedDocument) : LinkedDocument :=
  match d.code with
  | some (language, lines) =>
    { d with code := none }.plant none (.codeBlock language [.plain (Text.unlines lines)])
  | none => d

/-- Closes the quote; a quote without text holds one empty paragraph. -/
def closeQuote (d : LinkedDocument) : LinkedDocument :=
  match d.quote with
  | some id =>
    if (d.arena.children id).isEmpty then
      { d with quote := none }.plant (some id) (.container .paragraph (Node.orEmptyText []))
    else { d with quote := none }
  | none => d

/-- Takes in an event. -/
def step (d : LinkedDocument) : Event → LinkedDocument
  | .blank => d
  | .leaf leaf => d.plant none leaf.node
  | .listItem item => d.addItem item
  | .listEnd => { d with lists := [] }
  | .codeStart language => { d with code := some (language, []) }
  | .codeLine text => { d with code := d.code.map fun code => (code.1, code.2 ++ [text]) }
  | .codeEnd => d.closeCode
  | .quoteStart => { d.plant none (.container .blockquote []) with quote := some d.arena.length }
  | .quoteLine text =>
    match d.quote with
    | some id => if text.isBlank then d else d.plant (some id) (Node.paragraphOfLine text)
    | none => d
  | .quoteEnd => d.closeQuote
  | .tableStart => { d.plant none (.container .table []) with table := some d.arena.length }
  | .tableRow row =>
    match d.table with
    | some id => d.plant (some id) row.node
    | none => d
  | .tableEnd => { d with table := none }

/-- The document of events so far. -/
def ofEvents (events : List Event) : LinkedDocument := events.foldl step {}

/-- Closes the code and the quote that are open. -/
def close (d : LinkedDocument) : LinkedDocument := d.closeCode.closeQuote

/-- The finished document. -/
def toDocument (d : LinkedDocument) : Document :=
  .ofContent (d.close.arena.takeTrees d.close.roots).1

end LinkedDocument

end TicketMarkup
