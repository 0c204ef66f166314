import TicketMarkup.Json.Basic

/-!
# Elements of documents of any writer

The readable text of a document is taken from its JSON directly, so that nodes of unknown types
still show the text inside them. An element is what is left of a JSON value for this purpose: its
kind, with the data that shows, and the elements of its content. Every JSON value is an element;
one that is no node has the kind `nothing`.
-/

namespace TicketMarkup

/-- What an element shows. -/
inductive ElementKind
  | paragraph
  | heading (level : Nat)
  | list (ordered : Bool)
  | listItem
  | codeBlock (language : Text)
  | blockquote
  | table
  | rule
  | group
  | media (url alt : Text)
  | text (t : Text)
  | lineBreak
  | nothing
  | other
  deriving Repr, DecidableEq

/-- An element of a document, with the elements inside it. -/
inductive Element
  | mk (kind : ElementKind) (children : List Element)
  deriving Repr

namespace Element

/-- The kind of an element. -/
def kind : Element → ElementKind
  | mk kind _ => kind

/-- The elements inside an element. -/
def children : Element → List Element
  | mk _ children => children

/-- The element is a list. -/
def isList (element : Element) : Bool :=
  match element.kind with
  | .list _ => true
  | _ => false

/-- An attribute of a node. -/
def attribute? (name : String) (json : Json) : Option Json :=
  (json.get? "attrs").bind (·.get? name)

/-- The kind of a text; without text there is nothing to show. -/
def textKind : Option Text → ElementKind
  | some t => .text t
  | none => .nothing

/-- The kind of a node with a type. -/
def kindOfType (name : String) (json : Json) : ElementKind :=
  let textAttribute (name : String) := (attribute? name json).bind Json.text?
  match name with
  | "paragraph" => .paragraph
  | "heading" => .heading (((attribute? "level" json).bind Json.nat?).getD 1)
  | "bulletList" => .list false
  | "orderedList" => .list true
  | "listItem" => .listItem
  | "codeBlock" => .codeBlock ((textAttribute "language").getD [])
  | "blockquote" => .blockquote
  | "table" => .table
  | "rule" => .rule
  | "mediaSingle" | "mediaGroup" => .group
  | "media" =>
    match textAttribute "url" with
    | some url => .media url ((textAttribute "alt").getD [])
    | none => .nothing
  | "text" => textKind ((json.get? "text").bind Json.text?)
  | "hardBreak" => .lineBreak
  | "mention" => textKind (textAttribute "text")
  | _ => .other

/-- The kind of any JSON value. -/
def kindOf (json : Json) : ElementKind :=
  match json.get? "type" with
  | some (.string name) => kindOfType name json
  | _ => .nothing

mutual

/-- The element of a JSON value. -/
def ofJson (json : Json) : Element :=
  match h : json.get? "content" with
  | some (.array items) =>
    have := Json.sizeOf_get?_items_lt h
    mk (kindOf json) (ofJsonAll items)
  | _ => mk (kindOf json) []
termination_by sizeOf json
decreasing_by assumption

/-- The elements of JSON values. -/
def ofJsonAll (items : List Json) : List Element :=
  match items with
  | [] => []
  | item :: rest => ofJson item :: ofJsonAll rest
termination_by sizeOf items
decreasing_by all_goals simp only [List.cons.sizeOf_spec]; omega

end

end Element

end TicketMarkup
