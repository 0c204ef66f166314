import TicketMarkup.Document.Node
import TicketMarkup.Json.Record

/-!
# Documents as JSON

Every node is an object with its `type` first, then its attributes, then its content. An optional
attribute that is missing is left out, and so are marks if there are none. Reading takes what
writing gives, and more: fields in any order, unknown fields, nulls in place of missing attributes,
and records as arrays. Of the nodes of other writers only those that this library knows are read.
-/

namespace TicketMarkup

/-! ## Writing -/

/-- A field that is left out if it has no value. -/
def Json.optionalField (name : String) (value : Option Text) : List (String × Json) :=
  match value with
  | some t => [(name, .ofText t)]
  | none => []

/-- A mark as an object. -/
def Mark.toJson : Mark → Json
  | strong => .object [("type", .string "strong")]
  | em => .object [("type", .string "em")]
  | strike => .object [("type", .string "strike")]
  | code => .object [("type", .string "code")]
  | link href title =>
    .object [("type", .string "link"),
      ("attrs", .object (("href", .ofText href) :: Json.optionalField "title" title))]

/-- The attributes of media as an object. -/
def Media.toJson (m : Media) : Json :=
  .object (("type", .string "external") :: ("url", .ofText m.url)
    :: Json.optionalField "alt" m.alt ++ Json.optionalField "title" m.title)

/-- The attributes of a code block, left out if it has no language. -/
def Node.languageField : Option Text → List (String × Json)
  | some language => [("attrs", .object [("language", .ofText language)])]
  | none => []

/-- The marks of a text, left out if there are none. -/
def Node.marksField (marks : List Mark) : List (String × Json) :=
  if marks.isEmpty then [] else [("marks", .array (marks.map Mark.toJson))]

mutual

/-- A node as an object. -/
def Node.toJson : Node → Json
  | .container kind content =>
    .object [("type", .string kind.name), ("content", .array (Node.toJsonAll content))]
  | .heading level content =>
    .object [("type", .string "heading"), ("attrs", .object [("level", .ofNat level.toNat)]),
      ("content", .array (Node.toJsonAll content))]
  | .codeBlock language content =>
    .object (("type", .string "codeBlock") :: Node.languageField language
      ++ [("content", .array (Node.toJsonAll content))])
  | .media m => .object [("type", .string "media"), ("attrs", m.toJson)]
  | .text t marks =>
    .object (("type", .string "text") :: ("text", .ofText t) :: Node.marksField marks)
  | .rule => .object [("type", .string "rule")]
  | .hardBreak => .object [("type", .string "hardBreak")]

/-- Nodes as objects. -/
def Node.toJsonAll : List Node → List Json
  | [] => []
  | node :: rest => Node.toJson node :: Node.toJsonAll rest

end

/-- A document as an object. -/
def Document.toJson (d : Document) : Json :=
  .object [("version", .ofNat d.version.toNat), ("type", .string "doc"),
    ("content", .array (Node.toJsonAll d.content))]

/-! ## Reading -/

/-- The tag of a choice: one of its names, or, inside a node, the position of one. -/
def Json.tag? (names : List String) (inNode : Bool) : Json → Option String
  | .string s => if s ∈ names then some s else none
  | .number (.natural n) => if inNode then names[n]? else none
  | _ => none

namespace Mark

/-- The names of the marks. -/
def names : List String := ["strong", "em", "strike", "code", "link"]

/-- The link mark of its attributes. -/
def ofAttributes? (attrs : Json) : Option Mark :=
  if attrs.isRecord 2 then do
    let href ← (← attrs.column? 0 "href").text?
    let title ← Json.optional? Json.text? (attrs.column? 1 "title")
    some (.link href title)
  else none

/-- Reads a mark. -/
def ofJson? (json : Json) : Option Mark := do
  let name ← (← json.column? 0 "type").tag? names true
  if name = "link" then
    if json.isRecord 2 then ofAttributes? (← json.column? 1 "attrs") else none
  else if json.isRecord 1 then
    match name with
    | "strong" => some .strong
    | "em" => some .em
    | "strike" => some .strike
    | _ => some .code
  else none

end Mark

/-- Reads the attributes of media. -/
def Media.ofJson? (attrs : Json) : Option Media :=
  if attrs.isRecord 4 then do
    let kind ← attrs.column? 0 "type"
    let url ← (← attrs.column? 1 "url").text?
    let alt ← Json.optional? Json.text? (attrs.column? 2 "alt")
    let title ← Json.optional? Json.text? (attrs.column? 3 "title")
    if kind.isChoice "external" Json.isEmpty then some ⟨url, alt, title⟩ else none
  else none

namespace Node

/-- The names of the nodes. -/
def names : List String :=
  ["paragraph", "heading", "bulletList", "orderedList", "listItem", "blockquote", "codeBlock",
    "table", "tableRow", "tableCell", "rule", "mediaSingle", "media", "text", "hardBreak"]

/-- Reads the level of a heading from its attributes. -/
def level? (attrs : Json) : Option UInt8 :=
  if attrs.isRecord 1 then do
    let n ← (← attrs.column? 0 "level").nat?
    if n < UInt8.size then some n.toUInt8 else none
  else none

/-- Reads the language of a code block from its attributes. -/
def language? (attrs : Json) : Option Text :=
  if attrs.isRecord 1 then (attrs.column? 0 "language").bind Json.text? else none

/-- Reads the marks of a text; they may be missing, but not null. -/
def marks? : Option Json → Option (List Mark)
  | none => some []
  | some value => value.items?.bind (·.mapM Mark.ofJson?)

/-- What a node is apart from the nodes that it holds: a whole node, or the position of its content
and the node that it makes of it. -/
inductive Head
  | whole (node : Node)
  | parent (position : Nat) (node : List Node → Node)

/-- Reads all of a node but its content. -/
def head? (inNode : Bool) (json : Json) : Option Head := do
  let name ← (← json.column? 0 "type").tag? names inNode
  let container (kind : Container) : Option Head :=
    if json.isRecord 2 then some (.parent 1 (container kind)) else none
  match name with
  | "paragraph" => container .paragraph
  | "bulletList" => container .bulletList
  | "orderedList" => container .orderedList
  | "listItem" => container .listItem
  | "blockquote" => container .blockquote
  | "table" => container .table
  | "tableRow" => container .tableRow
  | "tableCell" => container .tableCell
  | "mediaSingle" => container .mediaSingle
  | "heading" =>
    if json.isRecord 3 then do
      let level ← level? (← json.column? 1 "attrs")
      some (.parent 2 (heading level))
    else none
  | "codeBlock" =>
    if json.isRecord 3 then do
      let language ← Json.optional? language? (json.column? 1 "attrs")
      some (.parent 2 (codeBlock language))
    else none
  | "media" =>
    if json.isRecord 2 then do
      let media ← Media.ofJson? (← json.column? 1 "attrs")
      some (.whole (.media media))
    else none
  | "text" =>
    if json.isRecord 3 then do
      let t ← (← json.column? 1 "text").text?
      let marks ← marks? (json.column? 2 "marks")
      some (.whole (.text t marks))
    else none
  | "rule" => if json.isRecord 1 then some (.whole .rule) else none
  | _ => if json.isRecord 1 then some (.whole .hardBreak) else none

mutual

/-- Reads a node. -/
def ofJson? (inNode : Bool) (json : Json) : Option Node :=
  match head? inNode json with
  | none => none
  | some (.whole node) => some node
  | some (.parent position node) =>
    match h : json.column? position "content" with
    | some (.array items) =>
      have := Json.sizeOf_column?_items_lt h
      (ofJsonAll? true items).map node
    | _ => none
termination_by sizeOf json
decreasing_by assumption

/-- Reads nodes; one that cannot be read fails them all. -/
def ofJsonAll? (inNode : Bool) (items : List Json) : Option (List Node) :=
  match items with
  | [] => some []
  | item :: rest =>
    match ofJson? inNode item, ofJsonAll? inNode rest with
    | some node, some nodes => some (node :: nodes)
    | _, _ => none
termination_by sizeOf items
decreasing_by all_goals simp only [List.cons.sizeOf_spec]; omega

end

end Node

/-- Reads a document. -/
def Document.ofJson? (json : Json) : Option Document :=
  if json.isRecord 3 then do
    let version ← (← json.column? 0 "version").nat?
    let kind ← json.column? 1 "type"
    let items ← (← json.column? 2 "content").items?
    let content ← Node.ofJsonAll? false items
    if version < UInt32.size ∧ kind.isChoice "doc" Json.isNull then some ⟨version.toUInt32, content⟩
    else none
  else none

end TicketMarkup
