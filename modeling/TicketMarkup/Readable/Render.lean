import TicketMarkup.Readable.Element
import TicketMarkup.Text.Lines

/-!
# Readable text

A document as text for people: blocks one under the other, headings with their marks, list items
with bullets or numbers and indented by two spaces for each level, quotes and tables drawn with
`>` and `|`. Marks of texts do not show.
-/

namespace TicketMarkup

namespace Element

/-- The indentation of a level. -/
def indent (depth : Nat) : Text := List.replicate (2 * depth) ' '

/-- What stands in front of an item: a bullet, or its number. -/
def itemMarker (ordered : Bool) (number : Nat) : Text :=
  if ordered then Text.ofNat number ++ ['.'] else ['•']

/-- A line of an item: the first one after the marker, the others below it. -/
def itemLine (depth : Nat) (marker : Text) (isFirst : Bool) (body : Text) : Text :=
  indent depth ++ (if isFirst then marker ++ [' '] else [' ', ' ']) ++ body.trim ++ ['\n']

/-- The heading of a level between one and six. -/
def headingLine (level : Nat) (body : Text) : Text :=
  List.replicate (min (max level 1) 6) '#' ++ ' ' :: body.trim ++ ['\n']

/-- A code block between fences. -/
def fenced (language body : Text) : Text :=
  ['`', '`', '`'] ++ language ++ '\n' :: body.trimEnd ++ ['\n', '`', '`', '`', '\n']

/-- The lines of a text, each behind a quote mark. -/
def quoted (body : Text) : Text :=
  Text.unlines ((Text.lines body.trimEnd).map fun line => Text.trimEnd ('>' :: ' ' :: line))
    ++ ['\n']

/-- A cell on one line. -/
def cellText (body : Text) : Text := body.trim.map fun c => if c = '\n' then ' ' else c

/-- A row of cells between pipes. -/
def rowLine (cells : List Text) : Text :=
  ['|', ' '] ++ Text.join [' ', '|', ' '] cells ++ [' ', '|']

mutual

/-- The text of an element, if it shows anything; `depth` is the level of a list at this place. -/
def render (depth : Nat) : Element → Option Text
  | mk kind children =>
    match kind with
    | .paragraph => some (renderAll depth children ++ ['\n'])
    | .heading level => some (headingLine level (renderAll 0 children))
    | .list ordered => some (renderItems depth ordered 1 children)
    | .listItem => some (renderAll depth children)
    | .codeBlock language => some (fenced language (renderAll 0 children))
    | .blockquote => some (quoted (renderAll depth children))
    | .table => some (Text.unlines (renderRows children) ++ ['\n'])
    | .rule => some ['-', '-', '-', '\n']
    | .group => some (renderAll depth children)
    | .media url alt => some (['!', '['] ++ alt ++ [']', '('] ++ url ++ [')', '\n'])
    | .text t => some t
    | .lineBreak => some ['\n']
    | .nothing => none
    | .other =>
      let body := renderAll depth children
      if body = [] then none else some body

/-- The texts of elements, one after the other. -/
def renderAll (depth : Nat) : List Element → Text
  | [] => []
  | element :: rest => (render depth element).getD [] ++ renderAll depth rest

/-- The items of a list, counted on from `number`. -/
def renderItems (depth : Nat) (ordered : Bool) (number : Nat) : List Element → Text
  | [] => []
  | mk _ children :: rest =>
    renderItem depth (itemMarker ordered number) true children
      ++ renderItems depth ordered (number + 1) rest

/-- The content of an item, whose first line has the marker: lists go one level deeper, and an item
without any line is its marker alone. -/
def renderItem (depth : Nat) (marker : Text) (isFirst : Bool) : List Element → Text
  | [] => if isFirst then indent depth ++ marker ++ ['\n'] else []
  | child :: rest =>
    if child.isList then
      (render (depth + 1) child).getD [] ++ renderItem depth marker isFirst rest
    else
      itemLine depth marker isFirst ((render depth child).getD [])
        ++ renderItem depth marker false rest

/-- The rows of a table. -/
def renderRows : List Element → List Text
  | [] => []
  | mk _ cells :: rest => rowLine (renderCells cells) :: renderRows rest

/-- The cells of a row. -/
def renderCells : List Element → List Text
  | [] => []
  | mk _ children :: rest => cellText (renderAll 0 children) :: renderCells rest

end

/-- A block that ends its line. -/
def endLine (t : Text) : Text := if t.getLast? = some '\n' then t else t ++ ['\n']

/-- The text of a document, if it shows anything. -/
def renderDocument (document : Element) : Option Text :=
  let body := (document.children.filterMap (render 0)).flatMap endLine
  if Text.isBlank body then none else some (Text.trim body)

end Element

namespace Readable

/-- The readable text of the content of a JSON value. -/
def ofDocument (json : Json) : Option Text := (Element.ofJson json).renderDocument

/-- The readable text of a description or a comment: a string stands for itself, a document is
rendered, and nothing else has text. -/
def ofField (json : Json) : Option Text :=
  match json with
  | .string s => some s.toList
  | .object _ => if json.get? "type" matches some (.string "doc") then ofDocument json else none
  | _ => none

/-- The value looks like a document: it has a version, the type and content. -/
def isDocument (json : Json) : Bool :=
  (match json.get? "version" with
    | none | some .null => false
    | _ => true)
    && (json.get? "type" matches some (.string "doc"))
    && (json.get? "content" matches some (.array _))

/-- The document inside a JSON value: the value itself, the body of a comment, or the description
of an issue. -/
def locate? (json : Json) : Option Json :=
  if isDocument json || (json matches .string _) then some json
  else
    match json.get? "body" with
    | some body => some body
    | none => (json.get? "fields").bind (·.get? "description")

end Readable

end TicketMarkup
