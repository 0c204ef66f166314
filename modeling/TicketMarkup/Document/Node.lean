import TicketMarkup.Text.Basic

/-!
# Structured documents

A structured document is a tree of nodes: blocks that hold blocks, lines of text with their marks,
and media. The tree is more liberal than the documents that this library builds; any node may stand
in any other.
-/

namespace TicketMarkup

/-- A mark on a text. -/
inductive Mark
  | strong
  | em
  | strike
  | code
  | link (href : Text) (title : Option Text)
  deriving Repr, DecidableEq

/-- A picture that lies outside the tracker. -/
structure Media where
  url : Text
  alt : Option Text
  title : Option Text
  deriving Repr, DecidableEq

/-- A kind of node that has nothing but its content. -/
inductive Container
  | paragraph
  | bulletList
  | orderedList
  | listItem
  | blockquote
  | table
  | tableRow
  | tableCell
  | mediaSingle
  deriving Repr, DecidableEq

/-- A node of a document. -/
inductive Node
  | container (kind : Container) (content : List Node)
  | heading (level : UInt8) (content : List Node)
  | codeBlock (language : Option Text) (content : List Node)
  | media (media : Media)
  | text (text : Text) (marks : List Mark)
  | rule
  | hardBreak
  deriving Repr

/-- A document: its blocks, and the version of the format. -/
structure Document where
  version : UInt32
  content : List Node
  deriving Repr

/-- The name of a kind of node. -/
def Container.name : Container → String
  | paragraph => "paragraph"
  | bulletList => "bulletList"
  | orderedList => "orderedList"
  | listItem => "listItem"
  | blockquote => "blockquote"
  | table => "table"
  | tableRow => "tableRow"
  | tableCell => "tableCell"
  | mediaSingle => "mediaSingle"

namespace Node

/-- The name of the kind of a node. -/
def name : Node → String
  | container kind _ => kind.name
  | heading _ _ => "heading"
  | codeBlock _ _ => "codeBlock"
  | media _ => "media"
  | text _ _ => "text"
  | rule => "rule"
  | hardBreak => "hardBreak"

/-- The nodes that a node holds. -/
def content : Node → List Node
  | container _ content | heading _ content | codeBlock _ content => content
  | media _ | text _ _ | rule | hardBreak => []

/-- The kind of list that has, or has not, numbered items. -/
def listKind (ordered : Bool) : Container := if ordered then .orderedList else .bulletList

/-- A text without marks. -/
def plain (t : Text) : Node := text t []

/-- The content of a block that must not be empty: an empty text stands in for nothing. -/
def orEmptyText (content : List Node) : List Node := if content.isEmpty then [plain []] else content

mutual

/-- The kinds of a node and of all nodes below it in preorder, with their depths. -/
def outline (depth : Nat) : Node → List (Nat × String)
  | container kind content => (depth, kind.name) :: outlineAll (depth + 1) content
  | heading _ content => (depth, "heading") :: outlineAll (depth + 1) content
  | codeBlock _ content => (depth, "codeBlock") :: outlineAll (depth + 1) content
  | node => [(depth, node.name)]

/-- The kinds of nodes and of all nodes below them in preorder, with their depths. -/
def outlineAll (depth : Nat) : List Node → List (Nat × String)
  | [] => []
  | node :: rest => outline depth node ++ outlineAll depth rest

end

end Node

namespace Document

/-- A document of the current version. -/
def ofContent (content : List Node) : Document := ⟨1, content⟩

/-- The kinds of all nodes in preorder, with their depths. -/
def outline (d : Document) : List (Nat × String) := Node.outlineAll 0 d.content

end Document

end TicketMarkup
