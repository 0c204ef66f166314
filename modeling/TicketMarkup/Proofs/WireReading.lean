import TicketMarkup.Document.Wire

/-!
# Reading documents that were written

Every document is read back from the object that it is written as (`Document.ofJson?_toJson`). The
attributes and marks of a node come back first; then its head, whatever its content is; and from
these the whole tree.
-/

namespace TicketMarkup

@[simp]
theorem Json.text?_ofText (t : Text) : (Json.ofText t).text? = some t := by
  rw [Json.ofText, Json.text?, String.toList_ofList]

@[simp]
theorem Json.optional?_ofText (t : Text) :
    Json.optional? Json.text? (some (.ofText t)) = some (some t) := by
  rw [Json.ofText, Json.optional?, ← Json.ofText, Json.text?_ofText, Option.map_some]
  exact fun h => nomatch h

@[simp]
theorem Json.optional?_none {α : Type} (read? : Json → Option α) :
    Json.optional? read? none = some none := rfl

theorem Mark.ofJson?_toJson (mark : Mark) : Mark.ofJson? mark.toJson = some mark := by
  cases mark with
  | link href title =>
    have hattrs : ofAttributes? (.object (("href", .ofText href) ::
        Json.optionalField "title" title)) = some (.link href title) := by
      cases title <;>
        simp [ofAttributes?, Json.isRecord, Json.column?, Json.optionalField, Json.lastField?]
    simp [Mark.toJson, Mark.ofJson?, Mark.names, Json.column?, Json.lastField?, Json.tag?,
      Json.isRecord, hattrs]
  | _ => rfl

theorem Media.ofJson?_toJson (media : Media) : Media.ofJson? media.toJson = some media := by
  obtain ⟨url, alt, title⟩ := media
  cases alt <;> cases title <;>
    simp [Media.toJson, Media.ofJson?, Json.isRecord, Json.column?, Json.optionalField,
      Json.lastField?, Json.isChoice]

namespace Node

theorem level?_toJson (level : UInt8) :
    level? (.object [("level", .ofNat level.toNat)]) = some level := by
  have hlt : level.toNat < UInt8.size := level.toNat_lt
  simp [level?, Json.isRecord, Json.column?, Json.lastField?, Json.ofNat, Json.nat?, hlt]

theorem language?_toJson (language : Text) :
    language? (.object [("language", .ofText language)]) = some language := by
  simp [language?, Json.isRecord, Json.column?, Json.lastField?]

theorem marks?_toJson (marks : List Mark) :
    marks? (Json.lastField? "marks" (marksField marks)) = some marks := by
  have hread : (marks.map Mark.toJson).mapM Mark.ofJson? = some marks := by
    induction marks with
    | nil => rfl
    | cons mark rest ih => simp [Mark.ofJson?_toJson, ih]
  unfold marksField
  cases marks with
  | nil => rfl
  | cons mark rest => simpa [Json.lastField?, marks?, Json.items?] using hread

theorem ofJson?_of_whole {inNode : Bool} {json : Json} {node : Node}
    (h : head? inNode json = some (.whole node)) : ofJson? inNode json = some node := by
  rw [ofJson?, h]

theorem ofJson?_of_parent {inNode : Bool} {json : Json} {position : Nat} {node : List Node → Node}
    {items : List Json} (h : head? inNode json = some (.parent position node))
    (hitems : json.column? position "content" = some (.array items)) :
    ofJson? inNode json = (ofJsonAll? true items).map node := by
  rw [ofJson?, h]
  dsimp only
  split
  · rename_i items' hitems'
    rw [hitems] at hitems'
    cases hitems'
    rfl
  · rename_i hno
    exact absurd hitems (hno items)

section

variable (inNode : Bool)

theorem head?_container (kind : Container) (content : Json) :
    head? inNode (.object [("type", .string kind.name), ("content", content)]) =
      some (.parent 1 (.container kind)) := by
  cases kind <;> rfl

theorem head?_heading (level : UInt8) (content : Json) :
    head? inNode (.object [("type", .string "heading"),
      ("attrs", .object [("level", .ofNat level.toNat)]), ("content", content)]) =
      some (.parent 2 (.heading level)) := by
  simp [head?, Json.column?, Json.lastField?, Json.tag?, names, Json.isRecord, level?_toJson]

theorem head?_codeBlock (language : Option Text) (content : Json) :
    head? inNode (.object (("type", .string "codeBlock") :: languageField language
      ++ [("content", content)])) = some (.parent 2 (.codeBlock language)) := by
  cases language <;>
    simp [head?, Json.column?, Json.lastField?, Json.tag?, names, Json.isRecord, languageField,
      Json.optional?, language?_toJson]

theorem head?_media (media : Media) :
    head? inNode (.object [("type", .string "media"), ("attrs", media.toJson)]) =
      some (.whole (.media media)) := by
  simp [head?, Json.column?, Json.lastField?, Json.tag?, names, Json.isRecord,
    Media.ofJson?_toJson]

theorem head?_text (t : Text) (marks : List Mark) :
    head? inNode (.object (("type", .string "text") :: ("text", .ofText t) :: marksField marks)) =
      some (.whole (.text t marks)) := by
  have hmarks := marks?_toJson marks
  unfold marksField at hmarks ⊢
  cases marks <;>
    simp_all [head?, Json.column?, Json.lastField?, Json.tag?, names, Json.isRecord]

end

mutual

/-- Reading what a node is written as gives the node. -/
theorem ofJson?_toJson (inNode : Bool) : (node : Node) → ofJson? inNode node.toJson = some node
  | .container kind content => by
    rw [toJson, ofJson?_of_parent (head?_container inNode kind _) rfl, ofJsonAll?_toJsonAll]
    rfl
  | .heading level content => by
    rw [toJson, ofJson?_of_parent (head?_heading inNode level _) rfl, ofJsonAll?_toJsonAll]
    rfl
  | .codeBlock language content => by
    rw [toJson, ofJson?_of_parent (head?_codeBlock inNode language _)
      (by cases language <;> rfl), ofJsonAll?_toJsonAll]
    rfl
  | .media m => by rw [toJson, ofJson?_of_whole (head?_media inNode m)]
  | .text t marks => by rw [toJson, ofJson?_of_whole (head?_text inNode t marks)]
  | .rule => by rw [toJson, ofJson?_of_whole rfl]
  | .hardBreak => by rw [toJson, ofJson?_of_whole rfl]

theorem ofJsonAll?_toJsonAll (inNode : Bool) : (nodes : List Node) →
    ofJsonAll? inNode (toJsonAll nodes) = some nodes
  | [] => by rw [toJsonAll, ofJsonAll?]
  | node :: rest => by
    rw [toJsonAll, ofJsonAll?, ofJson?_toJson inNode node, ofJsonAll?_toJsonAll inNode rest]

end

end Node

theorem Document.ofJson?_toJson (d : Document) : Document.ofJson? d.toJson = some d := by
  have hlt : d.version.toNat < UInt32.size := d.version.toNat_lt
  simp [toJson, ofJson?, Json.isRecord, Json.column?, Json.lastField?, Json.ofNat, Json.nat?,
    Json.items?, Json.isChoice, Node.ofJsonAll?_toJsonAll, hlt]

end TicketMarkup
