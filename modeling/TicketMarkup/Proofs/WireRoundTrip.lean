import TicketMarkup.Proofs.WireForm
import TicketMarkup.Proofs.WireReading

/-!
# Documents and their wire form

A document and the object that it is written as determine each other (`Document.wire_form`).

1. What is written is in object form, and is read back.
2. What is read from a value in object form is written as the value without the fields that say
   nothing. The attributes of each record come first; `Node.ReadFrom` lists, for each kind of node,
   the fields that it has been read from, and with it the tree is by induction.
3. So reading and writing once more changes nothing.
-/

namespace TicketMarkup

open Wire

/-! ## The form of what is written -/

theorem Mark.inObjectForm_toJson (mark : Mark) : inObjectForm (.record .mark) mark.toJson := by
  cases mark with
  | link href title => cases title <;> rfl
  | _ => rfl

theorem Mark.itemsInObjectForm_toJson (marks : List Mark) :
    itemsInObjectForm .mark (marks.map Mark.toJson) := by
  induction marks with
  | nil => rfl
  | cons mark rest ih =>
    rw [List.map_cons, itemsInObjectForm, Mark.inObjectForm_toJson, ih]
    rfl

theorem Media.inObjectForm_toJson (m : Media) :
    inObjectForm (.record .mediaAttributes) m.toJson := by
  obtain ⟨url, alt, title⟩ := m
  cases alt <;> cases title <;> rfl

namespace Node

mutual

/-- A node is written in object form. -/
theorem inObjectForm_toJson : (node : Node) → inObjectForm (.record .node) node.toJson
  | .container kind content => by
    have ih := itemsInObjectForm_toJsonAll content
    rw [toJson, inObjectForm]
    cases kind <;> exact fieldsInObjectForm_cons rfl rfl (fieldsInObjectForm_cons rfl ih rfl)
  | .heading level content => by
    have ih := itemsInObjectForm_toJsonAll content
    rw [toJson, inObjectForm]
    exact fieldsInObjectForm_cons rfl rfl (fieldsInObjectForm_cons rfl rfl
      (fieldsInObjectForm_cons rfl ih rfl))
  | .codeBlock language content => by
    have ih := itemsInObjectForm_toJsonAll content
    rw [toJson, inObjectForm]
    cases language with
    | none => exact fieldsInObjectForm_cons rfl rfl (fieldsInObjectForm_cons rfl ih rfl)
    | some _ =>
      exact fieldsInObjectForm_cons rfl rfl (fieldsInObjectForm_cons rfl rfl
        (fieldsInObjectForm_cons rfl ih rfl))
  | .media m => by
    have hm := Media.inObjectForm_toJson m
    rw [toJson, inObjectForm]
    exact fieldsInObjectForm_cons rfl rfl (fieldsInObjectForm_cons rfl hm rfl)
  | .text t marks => by
    have hmarks := Mark.itemsInObjectForm_toJson marks
    rw [toJson, inObjectForm]
    cases marks with
    | nil => exact fieldsInObjectForm_cons rfl rfl (fieldsInObjectForm_cons rfl rfl rfl)
    | cons mark rest =>
      exact fieldsInObjectForm_cons rfl rfl (fieldsInObjectForm_cons rfl rfl
        (fieldsInObjectForm_cons rfl hmarks rfl))
  | .rule => by rfl
  | .hardBreak => by rfl

/-- Nodes are written in object form. -/
theorem itemsInObjectForm_toJsonAll : (nodes : List Node) →
    itemsInObjectForm .node (toJsonAll nodes)
  | [] => by rfl
  | node :: rest => by
    rw [toJsonAll, itemsInObjectForm, inObjectForm_toJson node, itemsInObjectForm_toJsonAll rest]
    rfl

end

end Node

theorem Document.inObjectForm_toJson (d : Document) :
    inObjectForm (.record .document) d.toJson := by
  rw [toJson, inObjectForm]
  exact fieldsInObjectForm_cons rfl rfl (fieldsInObjectForm_cons rfl rfl
    (fieldsInObjectForm_cons rfl (Node.itemsInObjectForm_toJsonAll d.content) rfl))

/-! ## Writing what is read -/

section

variable {json : Json}

theorem Json.eq_ofText {t : Text} (h : json.text? = some t) : json = .ofText t := by
  cases json with
  | string s =>
    obtain rfl := Option.some.inj h
    rw [Json.ofText, String.ofList_toList]
  | _ => simp [Json.text?] at h

theorem Json.eq_ofNat {n : Nat} (h : json.nat? = some n) : json = .ofNat n := by
  unfold Json.nat? at h
  split at h
  · rw [Option.some.inj h, Json.ofNat]
  · simp at h

theorem Json.eq_array {items : List Json} (h : json.items? = some items) : json = .array items := by
  cases json with
  | array items' => rw [Option.some.inj h]
  | _ => simp [Json.items?] at h

/-- An optional value is missing or null, or it is read. -/
theorem Json.optional?_eq_some {α : Type} {read? : Json → Option α} {field : Option Json}
    {value : Option α} (h : Json.optional? read? field = some value) :
    (value = none ∧ ∀ json, field = some json → json = .null) ∨
      ∃ json a, field = some json ∧ json.isNull = false ∧ read? json = some a ∧ value = some a := by
  unfold Json.optional? at h
  split at h
  · exact .inl ⟨(Option.some.inj h).symm, by simp⟩
  · exact .inl ⟨(Option.some.inj h).symm, by simp⟩
  · next json hnull =>
    obtain ⟨a, ha, rfl⟩ := Option.map_eq_some_iff.1 h
    refine .inr ⟨json, a, rfl, ?_, ha, rfl⟩
    cases json <;> simp_all [Json.isNull]

end

namespace Wire

variable {fields : List (String × Json)}

/-- An optional text is written as it is kept. -/
theorem kept_of_optional?_text {name : String} {value : Option Text}
    (h : Json.optional? Json.text? (Json.lastField? name fields) = some value) :
    kept fields (.nullable name .plain) = Json.optionalField name value := by
  rcases Json.optional?_eq_some h with ⟨rfl, hnull⟩ | ⟨json, t, hjson, hnull, ht, rfl⟩
  · exact kept_nullable_eq_nil hnull
  · rw [kept_nullable hjson hnull, Json.eq_ofText ht]
    rfl

end Wire

/-- The attributes of a link are written as they are kept. -/
theorem Mark.sortKeys_attributes {attrs : Json} {mark : Mark}
    (hform : inObjectForm (.record .linkAttributes) attrs) (h : ofAttributes? attrs = some mark) :
    ∃ href title, mark = .link href title ∧
      (Json.object (("href", .ofText href) :: Json.optionalField "title" title)).sortKeys =
        (pruned (.record .linkAttributes) attrs).sortKeys := by
  obtain ⟨fields, rfl, -⟩ := exists_object hform
  simp only [ofAttributes?, Json.isRecord, ↓reduceIte, Json.column?, Option.bind_eq_bind,
    Option.bind_eq_some_iff] at h
  obtain ⟨json, hjson, href, hhref, title, htitle, hmark⟩ := h
  refine ⟨href, title, (Option.some.inj hmark).symm, ?_⟩
  rw [sortKeys_pruned]
  simp only [Record.fields, List.flatMap_cons, List.flatMap_nil, kept_always hjson,
    kept_of_optional?_text htitle, Json.eq_ofText hhref, List.append_nil, List.singleton_append]
  rfl

/-- The attributes of media are written as they are kept. -/
theorem Media.sortKeys_toJson {attrs : Json} {media : Media}
    (hform : inObjectForm (.record .mediaAttributes) attrs) (h : ofJson? attrs = some media) :
    media.toJson.sortKeys = (pruned (.record .mediaAttributes) attrs).sortKeys := by
  obtain ⟨fields, rfl, hfields⟩ := exists_object hform
  simp only [ofJson?, Json.isRecord, ↓reduceIte, Json.column?, Option.bind_eq_bind,
    Option.bind_eq_some_iff, Option.ite_none_right_eq_some] at h
  obtain ⟨kind, hkind, json, hjson, url, hurl, alt, halt, title, htitle, hchoice, hmedia⟩ := h
  obtain ⟨name, rfl⟩ := exists_string
    (hfields (.always "type" .tag) (by simp [Record.fields]) kind hkind rfl)
  obtain rfl : name = "external" := by simpa [Json.isChoice] using hchoice
  obtain rfl := Option.some.inj hmedia
  rw [sortKeys_pruned]
  simp only [Record.fields, List.flatMap_cons, List.flatMap_nil, kept_always hkind,
    kept_always hjson, kept_of_optional?_text halt, kept_of_optional?_text htitle,
    Json.eq_ofText hurl, List.append_nil, List.singleton_append]
  rfl

/-- A mark is written as it is kept. -/
theorem Mark.sortKeys_toJson {json : Json} {mark : Mark}
    (hform : inObjectForm (.record .mark) json) (h : ofJson? json = some mark) :
    mark.toJson.sortKeys = (pruned (.record .mark) json).sortKeys := by
  obtain ⟨fields, rfl, hfields⟩ := exists_object hform
  simp only [ofJson?, Json.isRecord, ↓reduceIte, Json.column?, Option.bind_eq_bind,
    Option.bind_eq_some_iff] at h
  obtain ⟨json, hjson, name, hname, h⟩ := h
  obtain ⟨s, rfl⟩ := exists_string
    (hfields (.always "type" .tag) (by simp [Record.fields]) json hjson rfl)
  obtain ⟨hmem, hs⟩ := Option.ite_none_right_eq_some.1 hname
  obtain rfl := Option.some.inj hs
  have htype := typeName_eq hjson
  rw [sortKeys_pruned, htype]
  split_ifs at h with hlink
  · subst hlink
    obtain ⟨attrs, hattrs, hmark⟩ := Option.bind_eq_some_iff.1 h
    have hform := hfields (.always "attrs" (.record .linkAttributes))
      (by simp [htype, Record.fields, markFields]) attrs hattrs rfl
    obtain ⟨href, title, rfl, hsort⟩ := sortKeys_attributes hform hmark
    refine Json.sortKeys_object_congr ?_
    simp only [Record.fields, markFields, List.flatMap_cons, List.flatMap_nil, kept_always hjson,
      kept_always hattrs, List.append_nil, List.singleton_append, Json.sortKeysFields, hsort]
    rfl
  · have hkept : (Record.mark.fields s).flatMap (kept fields) = [("type", .string s)] := by
      simp [Record.fields, markFields, kept_always hjson, pruned]
    have hmark : mark.toJson = .object [("type", .string s)] := by
      simp only [names, List.mem_cons, List.not_mem_nil, or_false] at hmem
      rcases hmem with rfl | rfl | rfl | rfl | rfl
      iterate 4
        · cases h
          rfl
      · exact absurd rfl hlink
    rw [hkept, hmark]

namespace Node

/-- Marks are written as they are kept. -/
theorem sortKeys_marks {items : List Json} {marks : List Mark}
    (hform : inObjectForm (.records .mark) (.array items))
    (h : items.mapM Mark.ofJson? = some marks) :
    (Json.array (marks.map Mark.toJson)).sortKeys =
      (pruned (.records .mark) (.array items)).sortKeys := by
  rw [inObjectForm] at hform
  rw [pruned]
  induction items generalizing marks with
  | nil =>
    obtain rfl : [] = marks := by simpa using h
    rfl
  | cons item rest ih =>
    rw [itemsInObjectForm, Bool.and_eq_true] at hform
    simp only [List.mapM_cons, Option.bind_eq_bind, Option.bind_eq_some_iff] at h
    obtain ⟨mark, hmark, marks', hmarks, hcons⟩ := h
    obtain rfl := Option.some.inj hcons
    exact Json.sortKeys_array_cons (Mark.sortKeys_toJson hform.1 hmark) (ih hform.2 hmarks)

/-- The attributes of a heading are written as they are kept. -/
theorem sortKeys_level {attrs : Json} {level : UInt8}
    (hform : inObjectForm (.record .headingAttributes) attrs) (h : level? attrs = some level) :
    (Json.object [("level", .ofNat level.toNat)]).sortKeys =
      (pruned (.record .headingAttributes) attrs).sortKeys := by
  obtain ⟨fields, rfl, -⟩ := exists_object hform
  simp only [level?, Json.isRecord, ↓reduceIte, Json.column?, Option.bind_eq_bind,
    Option.bind_eq_some_iff, Option.ite_none_right_eq_some] at h
  obtain ⟨json, hjson, n, hn, hlt, hlevel⟩ := h
  obtain rfl := Option.some.inj hlevel
  have hnat : n.toUInt8.toNat = n := UInt8.toNat_ofNat_of_lt hlt
  rw [sortKeys_pruned, hnat]
  simp [Record.fields, kept_always hjson, Json.eq_ofNat hn, pruned, Json.ofNat]

/-- The attributes of a code block are written as they are kept. -/
theorem sortKeys_language {attrs : Json} {language : Text}
    (hform : inObjectForm (.record .codeBlockAttributes) attrs)
    (h : language? attrs = some language) :
    (Json.object [("language", .ofText language)]).sortKeys =
      (pruned (.record .codeBlockAttributes) attrs).sortKeys := by
  obtain ⟨fields, rfl, -⟩ := exists_object hform
  simp only [language?, Json.isRecord, ↓reduceIte, Json.column?, Option.bind_eq_some_iff] at h
  obtain ⟨json, hjson, htext⟩ := h
  rw [sortKeys_pruned]
  simp [Record.fields, kept_always hjson, Json.eq_ofText htext, pruned, Json.ofText]

/-- The fields of an object that a node is read from. -/
inductive ReadFrom (fields : List (String × Json)) : Node → Prop
  | container {kind : Container} {items : List Json} {content : List Node} :
      Json.lastField? "type" fields = some (.string kind.name) →
      Json.lastField? "content" fields = some (.array items) →
      ofJsonAll? true items = some content → ReadFrom fields (.container kind content)
  | heading {attrs : Json} {level : UInt8} {items : List Json} {content : List Node} :
      Json.lastField? "type" fields = some (.string "heading") →
      Json.lastField? "attrs" fields = some attrs → level? attrs = some level →
      Json.lastField? "content" fields = some (.array items) →
      ofJsonAll? true items = some content → ReadFrom fields (.heading level content)
  | codeBlock {language : Option Text} {items : List Json} {content : List Node} :
      Json.lastField? "type" fields = some (.string "codeBlock") →
      Json.optional? language? (Json.lastField? "attrs" fields) = some language →
      Json.lastField? "content" fields = some (.array items) →
      ofJsonAll? true items = some content → ReadFrom fields (.codeBlock language content)
  | media {attrs : Json} {m : Media} :
      Json.lastField? "type" fields = some (.string "media") →
      Json.lastField? "attrs" fields = some attrs → Media.ofJson? attrs = some m →
      ReadFrom fields (.media m)
  | text {json : Json} {t : Text} {marks : List Mark} :
      Json.lastField? "type" fields = some (.string "text") →
      Json.lastField? "text" fields = some json → json.text? = some t →
      marks? (Json.lastField? "marks" fields) = some marks → ReadFrom fields (.text t marks)
  | rule : Json.lastField? "type" fields = some (.string "rule") → ReadFrom fields .rule
  | hardBreak : Json.lastField? "type" fields = some (.string "hardBreak") →
      ReadFrom fields .hardBreak

/-- A whole node is read from the fields, and so is what a parent makes of its content. -/
def Head.ReadFrom (fields : List (String × Json)) : Head → Prop
  | .whole node => Node.ReadFrom fields node
  | .parent _ node => ∀ items content, Json.lastField? "content" fields = some (.array items) →
      ofJsonAll? true items = some content → Node.ReadFrom fields (node content)

/-- The name of a node decides which of the fields its head is read from. -/
theorem readFrom_of_head? {inNode : Bool} {fields : List (String × Json)} {s : String} {head : Head}
    (htype : Json.lastField? "type" fields = some (.string s))
    (h : head? inNode (.object fields) = some head) : head.ReadFrom fields := by
  simp only [head?, Json.column?, htype, Option.bind_eq_bind, Option.bind_some, Json.tag?,
    Json.isRecord, ↓reduceIte, Option.bind_eq_some_iff, Option.ite_none_right_eq_some] at h
  obtain ⟨name, ⟨hmem, hname⟩, h⟩ := h
  obtain rfl := Option.some.inj hname
  -- Nine of the fifteen names are those of containers, and read alike.
  have hcontainer (kind : Container) (hname : s = kind.name)
      (hhead : some (.parent 1 (.container kind)) = some head) : head.ReadFrom fields := by
    obtain rfl := Option.some.inj hhead
    exact fun _ _ => .container (hname ▸ htype)
  simp only [names, List.mem_cons, List.not_mem_nil, or_false] at hmem
  rcases hmem with rfl | rfl | rfl | rfl | rfl | rfl | rfl | rfl | rfl | rfl | rfl | rfl | rfl | rfl
    | rfl
  · exact hcontainer .paragraph rfl h
  · obtain ⟨attrs, hattrs, h⟩ := Option.bind_eq_some_iff.1 h
    obtain ⟨level, hlevel, hhead⟩ := Option.bind_eq_some_iff.1 h
    obtain rfl := Option.some.inj hhead
    exact fun _ _ => .heading htype hattrs hlevel
  · exact hcontainer .bulletList rfl h
  · exact hcontainer .orderedList rfl h
  · exact hcontainer .listItem rfl h
  · exact hcontainer .blockquote rfl h
  · obtain ⟨language, hattrs, hhead⟩ := Option.bind_eq_some_iff.1 h
    obtain rfl := Option.some.inj hhead
    exact fun _ _ => .codeBlock htype hattrs
  · exact hcontainer .table rfl h
  · exact hcontainer .tableRow rfl h
  · exact hcontainer .tableCell rfl h
  · obtain rfl := Option.some.inj h
    exact .rule htype
  · exact hcontainer .mediaSingle rfl h
  · obtain ⟨attrs, hattrs, h⟩ := Option.bind_eq_some_iff.1 h
    obtain ⟨media, hmedia, hhead⟩ := Option.bind_eq_some_iff.1 h
    obtain rfl := Option.some.inj hhead
    exact .media htype hattrs hmedia
  · obtain ⟨json, hjson, h⟩ := Option.bind_eq_some_iff.1 h
    obtain ⟨t, ht, h⟩ := Option.bind_eq_some_iff.1 h
    obtain ⟨marks, hmarks, hhead⟩ := Option.bind_eq_some_iff.1 h
    obtain rfl := Option.some.inj hhead
    exact .text htype hjson ht hmarks
  · obtain rfl := Option.some.inj h
    exact .hardBreak htype

/-- A node in object form is read from the fields of its type. -/
theorem readFrom_of_ofJson? {inNode : Bool} {fields : List (String × Json)} {node : Node}
    (htag : ∀ json, Json.lastField? "type" fields = some json → ∃ s, json = .string s)
    (h : ofJson? inNode (.object fields) = some node) : ReadFrom fields node := by
  rw [ofJson?] at h
  cases hhead : head? inNode (.object fields) with
  | none => simp [hhead] at h
  | some head =>
    have htype : ∃ s, Json.lastField? "type" fields = some (.string s) := by
      unfold head? at hhead
      obtain ⟨json, hjson, -⟩ := Option.bind_eq_some_iff.1 hhead
      obtain ⟨s, rfl⟩ := htag json hjson
      exact ⟨s, hjson⟩
    obtain ⟨s, htype⟩ := htype
    have hread := readFrom_of_head? htype hhead
    rw [hhead] at h
    cases head with
    | whole other =>
      obtain rfl := Option.some.inj h
      exact hread
    | parent position make =>
      dsimp only at h hread
      split at h
      · next items hitems =>
        obtain ⟨content, hcontent, rfl⟩ := Option.map_eq_some_iff.1 h
        exact hread items content hitems hcontent
      · simp at h

variable {fields : List (String × Json)}

/-- The attributes of a code block are written as they are kept. -/
theorem sortKeys_languageField {language : Option Text}
    (hform : ∀ json, Json.lastField? "attrs" fields = some json → json.isNull = false →
      inObjectForm (.record .codeBlockAttributes) json)
    (h : Json.optional? language? (Json.lastField? "attrs" fields) = some language) :
    Json.sortKeysFields (languageField language) =
      Json.sortKeysFields (kept fields (.nullable "attrs" (.record .codeBlockAttributes))) := by
  rcases Json.optional?_eq_some h with ⟨rfl, hnull⟩ | ⟨json, t, hjson, hnull, ht, rfl⟩
  · rw [kept_nullable_eq_nil hnull]
    rfl
  · simp only [kept_nullable hjson hnull, languageField, Json.sortKeysFields,
      sortKeys_language (hform json hjson hnull) ht]

/-- The marks of a text are written as they are kept. -/
theorem sortKeys_marksField {marks : List Mark}
    (hform : ∀ json, Json.lastField? "marks" fields = some json → isEmptyArray json = false →
      inObjectForm (.records .mark) json)
    (h : marks? (Json.lastField? "marks" fields) = some marks) :
    Json.sortKeysFields (Node.marksField marks) =
      Json.sortKeysFields (kept fields Wire.marksField) := by
  cases hjson : Json.lastField? "marks" fields with
  | none =>
    rw [hjson] at h
    obtain rfl := Option.some.inj h
    simp [kept, Wire.marksField, hjson, Node.marksField]
  | some json =>
    rw [hjson, marks?, Option.bind_eq_some_iff] at h
    obtain ⟨items, hitems, hmarks⟩ := h
    obtain rfl := Json.eq_array hitems
    cases items with
    | nil =>
      obtain rfl : [] = marks := by simpa using hmarks
      simp [kept, Wire.marksField, hjson, Node.marksField, isEmptyArray]
    | cons item rest =>
      -- As many marks are read as there are items, so both sides have the field.
      have hsort := sortKeys_marks (hform _ hjson rfl) hmarks
      have hne : marks ≠ [] := by
        rintro rfl
        simp [pruned, prunedItems, Json.sortKeys, Json.sortKeysItems] at hsort
      simp [kept, Wire.marksField, hjson, Node.marksField, hne, isEmptyArray, Json.sortKeysFields,
        hsort]

theorem fields_container (kind : Container) :
    Record.node.fields kind.name = [.always "type" .tag, contentField] := by
  cases kind <;> rfl

theorem items_eq_nil {inNode : Bool} {items : List Json} (h : ofJsonAll? inNode items = some []) :
    items = [] := by
  cases items with
  | nil => rfl
  | cons item rest =>
    rw [ofJsonAll?] at h
    split at h <;> simp at h

theorem items_eq_cons {inNode : Bool} {items : List Json} {node : Node} {nodes : List Node}
    (h : ofJsonAll? inNode items = some (node :: nodes)) :
    ∃ item rest, items = item :: rest ∧ ofJson? inNode item = some node ∧
      ofJsonAll? inNode rest = some nodes := by
  cases items with
  | nil => simp [ofJsonAll?] at h
  | cons item rest =>
    rw [ofJsonAll?] at h
    split at h
    · next hnode hnodes =>
      obtain ⟨rfl, rfl⟩ := List.cons.inj (Option.some.inj h)
      exact ⟨item, rest, rfl, hnode, hnodes⟩
    · simp at h

mutual

/-- A node in object form is written as it is kept. -/
theorem sortKeys_toJson (node : Node) {inNode : Bool} {json : Json}
    (hform : inObjectForm (.record .node) json) (h : ofJson? inNode json = some node) :
    node.toJson.sortKeys = (pruned (.record .node) json).sortKeys := by
  obtain ⟨fields, rfl, hfields⟩ := exists_object hform
  have hread := readFrom_of_ofJson? (fun json hjson =>
    exists_string (hfields (.always "type" .tag) (by simp [Record.fields]) json hjson rfl)) h
  rw [sortKeys_pruned]
  -- The fields that a kind of node is read from are those that the table has for its type.
  cases node with
  | container kind content =>
    cases hread with
    | container htype hcontent hnodes =>
      rw [typeName_eq htype, fields_container] at hfields ⊢
      have ih := sortKeys_toJsonAll content (hfields contentField (by simp) _ hcontent rfl) hnodes
      refine Json.sortKeys_object_congr ?_
      simp only [List.flatMap_cons, List.flatMap_nil, List.append_nil, List.singleton_append,
        kept_type htype, kept_content hcontent, Json.sortKeysFields, ih]
  | heading level content =>
    cases hread with
    | heading htype hattrs hlevel hcontent hnodes =>
      rw [typeName_eq htype, Record.fields, nodeFields] at hfields ⊢
      have ih := sortKeys_toJsonAll content (hfields contentField (by simp) _ hcontent rfl) hnodes
      have hlevelSort := sortKeys_level
        (hfields (.always "attrs" (.record .headingAttributes)) (by simp) _ hattrs rfl) hlevel
      refine Json.sortKeys_object_congr ?_
      simp only [List.flatMap_cons, List.flatMap_nil, List.append_nil, List.singleton_append,
        kept_type htype, kept_always hattrs, kept_content hcontent, Json.sortKeysFields,
        hlevelSort, ih]
  | codeBlock language content =>
    cases hread with
    | codeBlock htype hattrs hcontent hnodes =>
      rw [typeName_eq htype, Record.fields, nodeFields] at hfields ⊢
      have ih := sortKeys_toJsonAll content (hfields contentField (by simp) _ hcontent rfl) hnodes
      have hlanguage := sortKeys_languageField
        (hfields (.nullable "attrs" (.record .codeBlockAttributes)) (by simp)) hattrs
      refine Json.sortKeys_object_congr ?_
      simp only [List.flatMap_cons, List.flatMap_nil, List.append_nil, List.nil_append,
        List.cons_append, kept_type htype, kept_content hcontent, Json.sortKeysFields,
        Json.sortKeysFields_append, hlanguage, ih]
  | media m =>
    cases hread with
    | media htype hattrs hm =>
      rw [typeName_eq htype, Record.fields, nodeFields] at hfields ⊢
      have hattrsSort := Media.sortKeys_toJson
        (hfields (.always "attrs" (.record .mediaAttributes)) (by simp) _ hattrs rfl) hm
      refine Json.sortKeys_object_congr ?_
      simp only [List.flatMap_cons, List.flatMap_nil, List.append_nil, List.singleton_append,
        kept_type htype, kept_always hattrs, Json.sortKeysFields, hattrsSort]
  | text t marks =>
    cases hread with
    | text htype htext hvalue hmarks =>
      rw [typeName_eq htype, Record.fields, nodeFields] at hfields ⊢
      have hmarksSort := sortKeys_marksField (hfields Wire.marksField (by simp)) hmarks
      obtain rfl := Json.eq_ofText hvalue
      refine Json.sortKeys_object_congr ?_
      simp only [List.flatMap_cons, List.flatMap_nil, List.append_nil, List.singleton_append,
        kept_type htype, kept_always htext, Json.sortKeysFields, hmarksSort]
      rfl
  | rule =>
    cases hread with
    | rule htype =>
      simp [typeName_eq htype, Record.fields, nodeFields, kept_type htype, toJson]
  | hardBreak =>
    cases hread with
    | hardBreak htype =>
      simp [typeName_eq htype, Record.fields, nodeFields, kept_type htype, toJson]

/-- Nodes in object form are written as they are kept. -/
theorem sortKeys_toJsonAll (nodes : List Node) {inNode : Bool} {items : List Json}
    (hform : inObjectForm (.records .node) (.array items))
    (h : ofJsonAll? inNode items = some nodes) :
    (Json.array (toJsonAll nodes)).sortKeys =
      (pruned (.records .node) (.array items)).sortKeys := by
  cases nodes with
  | nil => rw [items_eq_nil h, toJsonAll, pruned, prunedItems]
  | cons node rest =>
    obtain ⟨item, items, rfl, hnode, hrest⟩ := items_eq_cons h
    rw [inObjectForm, itemsInObjectForm, Bool.and_eq_true] at hform
    exact Json.sortKeys_array_cons (sortKeys_toJson node hform.1 hnode)
      (sortKeys_toJsonAll rest (by rw [inObjectForm]; exact hform.2) hrest)

end

end Node

namespace Document

theorem sortKeys_toJson {json : Json} {d : Document}
    (hform : inObjectForm (.record .document) json) (h : ofJson? json = some d) :
    d.toJson.sortKeys = (pruned (.record .document) json).sortKeys := by
  obtain ⟨fields, rfl, hfields⟩ := exists_object hform
  simp only [ofJson?, Json.isRecord, ↓reduceIte, Json.column?, Option.bind_eq_bind,
    Option.bind_eq_some_iff, Option.ite_none_right_eq_some] at h
  obtain ⟨versionJson, hversion, version, hnat, kind, hkind, contentJson, hcontent, items, hitems,
    content, hnodes, ⟨hlt, hchoice⟩, hd⟩ := h
  obtain ⟨name, rfl⟩ := exists_string
    (hfields (.always "type" .tag) (by simp [Record.fields]) kind hkind rfl)
  obtain rfl : name = "doc" := by simpa [Json.isChoice] using hchoice
  obtain rfl := Json.eq_ofNat hnat
  obtain rfl := Json.eq_array hitems
  obtain rfl := Option.some.inj hd
  have hversionNat : version.toUInt32.toNat = version := UInt32.toNat_ofNat_of_lt hlt
  have hcontentSort := Node.sortKeys_toJsonAll content
    (hfields contentField (by simp [Record.fields]) _ hcontent rfl) hnodes
  rw [sortKeys_pruned]
  refine Json.sortKeys_object_congr ?_
  simp only [Record.fields, List.flatMap_cons, List.flatMap_nil, List.append_nil,
    List.singleton_append, kept_always hversion, kept_type hkind, kept_content hcontent,
    Json.sortKeysFields, hversionNat, hcontentSort]
  rfl

/-- A value read as a document and written again. -/
def rewrite? (json : Json) : Option Json := (ofJson? json).map toJson

/-- **Wire form.** A document is written in object form and read back as it was; a value in object
form that is read as a document is written again as the same object, up to the order of fields,
without the fields that say nothing; so writing a second time changes nothing. -/
theorem wire_form :
    (∀ d : Document, inObjectForm (.record .document) d.toJson ∧ ofJson? d.toJson = some d) ∧
      (∀ (json : Json) (d : Document), inObjectForm (.record .document) json →
        ofJson? json = some d →
          d.toJson.sortKeys = (pruned (.record .document) json).sortKeys) ∧
      ∀ json : Json, (rewrite? json).bind rewrite? = rewrite? json := by
  refine ⟨fun d => ⟨inObjectForm_toJson d, ofJson?_toJson d⟩,
    fun json d hform h => sortKeys_toJson hform h, fun json => ?_⟩
  unfold rewrite?
  cases ofJson? json with
  | none => rfl
  | some d => rw [Option.map_some, Option.bind_some, ofJson?_toJson, Option.map_some]

/-- A document with its fields in another order, an unknown field, a null and no marks. -/
theorem wire_form_of_loose_fields :
    ∃ json, inObjectForm (.record .document) json ∧
      ofJson? json = some ⟨1, [.codeBlock none [.text "x".toList []], .rule]⟩ ∧
      (toJson ⟨1, [.codeBlock none [.text "x".toList []], .rule]⟩).sortKeys =
        (pruned (.record .document) json).sortKeys := by
  let json := Json.object
    [("content", .array [
      .object [("content", .array [
          .object [("marks", .array []), ("text", .string "x"), ("type", .string "text")]]),
        ("attrs", .null), ("type", .string "codeBlock")],
      .object [("type", .string "rule"), ("localId", .string "7")]]),
    ("type", .string "doc"), ("version", .number (.natural 1))]
  have hform : inObjectForm (.record .document) json := by decide
  have hread : ofJson? json = some ⟨1, [.codeBlock none [.text "x".toList []], .rule]⟩ := by cbv
  exact ⟨json, hform, hread, wire_form.2.1 json _ hform hread⟩

end Document

end TicketMarkup
