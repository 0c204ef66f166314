import TicketMarkup.Document.Wire
import TicketMarkup.Readable.Element
import Mathlib.Tactic.SplitIfs

/-!
# Elements of nodes

What is left of a value for its readable text is its kind and the elements of its content
(`Element.ofJson_eq`). For a node these are its own kind and the elements of the nodes that it holds
(`Node.element_eq`), so the readable text of a document can be told from its nodes.
-/

namespace TicketMarkup

namespace Element

theorem ofJsonAll_eq_map (items : List Json) : ofJsonAll items = items.map ofJson := by
  induction items with
  | nil => rw [ofJsonAll, List.map_nil]
  | cons item rest ih => rw [ofJsonAll, ih, List.map_cons]

/-- The elements inside an element are those of the items of its content, if it has any. -/
theorem ofJson_eq (json : Json) :
    ofJson json =
      mk (kindOf json) ((((json.get? "content").bind Json.items?).getD []).map ofJson) := by
  rw [ofJson]
  split
  · next items h =>
    have hitems : ((json.get? "content").bind Json.items?).getD [] = items := by
      rw [h]
      rfl
    rw [hitems, ← ofJsonAll_eq_map]
  · next hnone =>
    cases h : json.get? "content" with
    | none => rfl
    | some content =>
      cases content with
      | array items => exact absurd h (hnone items)
      | _ => rfl

end Element

namespace Node

/-- The element of a node. -/
def element (n : Node) : Element := .ofJson n.toJson

/-- What a node shows; rows and cells of tables have no kind of their own. -/
def elementKind : Node → ElementKind
  | container kind _ =>
    match kind with
    | .paragraph => .paragraph
    | .bulletList => .list false
    | .orderedList => .list true
    | .listItem => .listItem
    | .blockquote => .blockquote
    | .table => .table
    | .tableRow | .tableCell => .other
    | .mediaSingle => .group
  | heading level _ => .heading level.toNat
  | codeBlock language _ => .codeBlock (language.getD [])
  | media m => .media m.url (m.alt.getD [])
  | text t _ => .text t
  | rule => .rule
  | hardBreak => .lineBreak

theorem toJsonAll_eq_map (nodes : List Node) : toJsonAll nodes = nodes.map toJson := by
  induction nodes with
  | nil => rfl
  | cons n rest ih => rw [toJsonAll, ih, List.map_cons]

theorem ofJsonAll_toJsonAll (nodes : List Node) :
    (toJsonAll nodes).map Element.ofJson = nodes.map element := by
  rw [toJsonAll_eq_map, List.map_map]
  rfl

theorem kindOf_toJson (n : Node) : Element.kindOf n.toJson = n.elementKind := by
  cases n with
  | container kind content => cases kind <;> rfl
  | codeBlock language content =>
    cases language with
    | none => rfl
    | some language => exact congrArg ElementKind.codeBlock String.toList_ofList
  | media m =>
    obtain ⟨url, alt, title⟩ := m
    cases alt with
    | none => cases title <;> exact congrArg (ElementKind.media · []) String.toList_ofList
    | some alt =>
      have hurl := congrArg ElementKind.media (String.toList_ofList (l := url))
      cases title <;> exact congr hurl String.toList_ofList
  | text t marks =>
    unfold toJson marksField
    split_ifs <;> exact congrArg ElementKind.text String.toList_ofList
  | _ => rfl

theorem content_toJson (n : Node) :
    ((n.toJson.get? "content").bind Json.items?).getD [] = toJsonAll n.content := by
  cases n with
  | codeBlock language content => cases language <;> rfl
  | text t marks =>
    unfold toJson marksField
    split_ifs <;> rfl
  | _ => rfl

/-- The element of a node is its kind with the elements of the nodes that it holds. -/
theorem element_eq (n : Node) : n.element = .mk n.elementKind (n.content.map element) := by
  rw [element, Element.ofJson_eq, kindOf_toJson, content_toJson, ofJsonAll_toJsonAll]

end Node

end TicketMarkup
