import TicketMarkup.Document.Wire
import TicketMarkup.Proofs.FieldOrder
import Mathlib.Tactic.SplitIfs

/-!
# The wire form of documents

What a document in JSON is made of, as a table: which records there are, which fields belong to
each, and which values say no more than a missing field. The table says when a value is in object
form, every record an object and every choice its name, and which fields of such a value say
something; `pruned` drops the others.

Reading a record looks its fields up by their names, so what it reads is what `kept` has for each of
the fields. Up to the order of fields this is all of the pruned record (`sortKeys_pruned`).
-/

namespace TicketMarkup

namespace Wire

/-- A record of the wire form. -/
inductive Record
  | document
  | node
  | mark
  | headingAttributes
  | codeBlockAttributes
  | mediaAttributes
  | linkAttributes
  deriving Repr, DecidableEq

/-- What stands in a field: a value that is taken as it is, the name of a choice, a record, or an
array of records. -/
inductive Value
  | plain
  | tag
  | record (r : Record)
  | records (r : Record)
  deriving Repr, DecidableEq

/-- A field of a record; a value that is `omitted` says no more than a missing field. -/
structure Field where
  name : String
  value : Value
  omitted : Json → Bool

/-- A field whose value always counts. -/
def Field.always (name : String) (value : Value) : Field := ⟨name, value, fun _ => false⟩

/-- A field where null stands for no value. -/
def Field.nullable (name : String) (value : Value) : Field := ⟨name, value, Json.isNull⟩

/-- The array without items. -/
def isEmptyArray : Json → Bool
  | .array [] => true
  | _ => false

/-- The field of the nodes that a document or a node holds. -/
def contentField : Field := .always "content" (.records .node)

/-- The field of the marks of a text. -/
def marksField : Field := ⟨"marks", .records .mark, isEmptyArray⟩

/-- The fields of a node besides its type. -/
def nodeFields : String → List Field
  | "heading" => [.always "attrs" (.record .headingAttributes), contentField]
  | "codeBlock" => [.nullable "attrs" (.record .codeBlockAttributes), contentField]
  | "media" => [.always "attrs" (.record .mediaAttributes)]
  | "text" => [.always "text" .plain, marksField]
  | "rule" | "hardBreak" => []
  | _ => [contentField]

/-- The fields of a mark besides its type. -/
def markFields : String → List Field
  | "link" => [.always "attrs" (.record .linkAttributes)]
  | _ => []

/-- The fields that belong to a record of some type. -/
def Record.fields (type : String) : Record → List Field
  | document => [.always "version" .plain, .always "type" .tag, contentField]
  | node => .always "type" .tag :: nodeFields type
  | mark => .always "type" .tag :: markFields type
  | headingAttributes => [.always "level" .plain]
  | codeBlockAttributes => [.always "language" .plain]
  | mediaAttributes =>
    [.always "type" .tag, .always "url" .plain, .nullable "alt" .plain, .nullable "title" .plain]
  | linkAttributes => [.always "href" .plain, .nullable "title" .plain]

/-- The type of a record, by its field of that name. -/
def typeName (fields : List (String × Json)) : String :=
  match Json.lastField? "type" fields with
  | some (.string s) => s
  | _ => ""

/-- The field of a name. -/
def field? (known : List Field) (name : String) : Option Field := known.find? (·.name == name)

mutual

/-- Every record in a value is written as an object, and every name of a choice as a string. -/
def inObjectForm (w : Value) : Json → Bool
  | .object fields =>
    match w with
    | .record r => fieldsInObjectForm (r.fields (typeName fields)) fields
    | .tag => false
    | .plain | .records _ => true
  | .array items =>
    match w with
    | .records r => itemsInObjectForm r items
    | .record _ | .tag => false
    | .plain => true
  | .string _ =>
    match w with
    | .record _ => false
    | .tag | .plain | .records _ => true
  | .null | .bool _ | .number _ =>
    match w with
    | .record _ | .tag => false
    | .plain | .records _ => true

/-- The items are records in object form. -/
def itemsInObjectForm (r : Record) : List Json → Bool
  | [] => true
  | item :: rest => inObjectForm (.record r) item && itemsInObjectForm r rest

/-- The known fields that are not omitted are in object form. -/
def fieldsInObjectForm (known : List Field) : List (String × Json) → Bool
  | [] => true
  | (name, value) :: rest =>
    (match field? known name with
      | some field => field.omitted value || inObjectForm field.value value
      | none => true) && fieldsInObjectForm known rest

end

mutual

/-- A value without the fields that say nothing: unknown fields, omitted ones, and all but the last
one of a name. -/
def pruned (w : Value) : Json → Json
  | .object fields =>
    match w with
    | .record r => .object (prunedFields (r.fields (typeName fields)) fields)
    | .plain | .tag | .records _ => .object fields
  | .array items =>
    match w with
    | .records r => .array (prunedItems r items)
    | .plain | .tag | .record _ => .array items
  | value => value

/-- Records without the fields that say nothing. -/
def prunedItems (r : Record) : List Json → List Json
  | [] => []
  | item :: rest => pruned (.record r) item :: prunedItems r rest

/-- The fields that say something. -/
def prunedFields (known : List Field) : List (String × Json) → List (String × Json)
  | [] => []
  | (name, value) :: rest =>
    match field? known name with
    | some field =>
      if field.omitted value || (Json.lastField? name rest).isSome then prunedFields known rest
      else (name, pruned field.value value) :: prunedFields known rest
    | none => prunedFields known rest

end

/-! ## Pruned records -/

/-- No record has two fields of one name. -/
theorem nodup_names (r : Record) (type : String) : ((r.fields type).map Field.name).Nodup := by
  cases r with
  | node =>
    simp only [Record.fields, List.map_cons]
    unfold nodeFields
    split <;> simp [Field.always, Field.nullable, contentField, marksField]
  | mark =>
    simp only [Record.fields, List.map_cons]
    unfold markFields
    split <;> simp [Field.always]
  | _ => simp [Record.fields, Field.always, Field.nullable, contentField]

theorem field?_eq_some_iff {known : List Field} (h : (known.map Field.name).Nodup) {name : String}
    {field : Field} : field? known name = some field ↔ field ∈ known ∧ field.name = name := by
  unfold field?
  constructor
  · intro hfind
    exact ⟨List.mem_of_find?_eq_some hfind, by simpa using List.find?_some hfind⟩
  · rintro ⟨hmem, rfl⟩
    cases hfind : known.find? (·.name == field.name) with
    | none => simpa using List.find?_eq_none.1 hfind field hmem
    | some other =>
      have hname : other.name = field.name := by simpa using List.find?_some hfind
      rw [List.inj_on_of_nodup_map h (List.mem_of_find?_eq_some hfind) hmem hname]

/-- What a record keeps of a field. -/
def kept (fields : List (String × Json)) (field : Field) : List (String × Json) :=
  match Json.lastField? field.name fields with
  | some value => if field.omitted value then [] else [(field.name, pruned field.value value)]
  | none => []

theorem kept_nil (field : Field) : kept [] field = [] := rfl

/-- A field in front of others counts if it is the only one of its name. -/
theorem kept_cons (name : String) (value : Json) (rest : List (String × Json)) (field : Field) :
    kept ((name, value) :: rest) field =
      if field.name = name ∧ Json.lastField? name rest = none then
        if field.omitted value then [] else [(field.name, pruned field.value value)]
      else kept rest field := by
  unfold kept
  rw [Json.lastField?]
  by_cases hname : field.name = name
  · rw [hname]
    cases Json.lastField? name rest <;> simp
  · cases Json.lastField? field.name rest <;> simp [hname, Ne.symm hname]

/-- A field that is not known, or that a later one overrides, changes nothing. -/
theorem flatMap_kept_cons_of_unused {known : List Field} {name : String} (value : Json)
    (rest : List (String × Json))
    (h : ∀ field ∈ known, field.name = name → Json.lastField? name rest ≠ none) :
    known.flatMap (kept ((name, value) :: rest)) = known.flatMap (kept rest) := by
  refine List.flatMap_congr fun field hfield => ?_
  rw [kept_cons, if_neg (not_and.2 (h field hfield))]

/-- A known field that no later one overrides comes to what is kept of the others. -/
theorem flatMap_kept_cons_perm {known : List Field} (h : (known.map Field.name).Nodup)
    {field : Field} (hfield : field ∈ known) {rest : List (String × Json)}
    (hlater : Json.lastField? field.name rest = none) (value : Json) :
    (known.flatMap (kept ((field.name, value) :: rest))).Perm
      ((if field.omitted value then [] else [(field.name, pruned field.value value)]) ++
        known.flatMap (kept rest)) := by
  obtain ⟨before, after, rfl⟩ := List.append_of_mem hfield
  have hnames : ∀ other ∈ before ++ after, other.name ≠ field.name := by
    rw [List.map_append, List.map_cons, List.nodup_middle, List.nodup_cons, ← List.map_append] at h
    exact fun other hother heq => h.1 (heq ▸ List.mem_map_of_mem hother)
  have hbefore := flatMap_kept_cons_of_unused value rest fun other hother heq =>
    absurd heq (hnames other (List.mem_append_left after hother))
  have hafter := flatMap_kept_cons_of_unused value rest fun other hother heq =>
    absurd heq (hnames other (List.mem_append_right before hother))
  have hrest : kept rest field = [] := by simp [kept, hlater]
  rw [List.flatMap_append, List.flatMap_cons, hbefore, hafter, kept_cons, if_pos ⟨rfl, hlater⟩,
    List.flatMap_append, List.flatMap_cons, hrest, List.nil_append]
  exact List.perm_append_comm_assoc _ _ _

/-- What a record keeps is what it keeps of each of its fields. -/
theorem prunedFields_perm {known : List Field} (h : (known.map Field.name).Nodup)
    (fields : List (String × Json)) :
    (prunedFields known fields).Perm (known.flatMap (kept fields)) := by
  induction fields with
  | nil => simp [prunedFields, kept_nil]
  | cons entry rest ih =>
    obtain ⟨name, value⟩ := entry
    rw [prunedFields]
    cases hfind : field? known name with
    | none =>
      have hunknown : ∀ field ∈ known, field.name ≠ name := fun field hfield hname => by
        simp [(field?_eq_some_iff h).2 ⟨hfield, hname⟩] at hfind
      rw [flatMap_kept_cons_of_unused value rest fun field hfield hname =>
        absurd hname (hunknown field hfield)]
      exact ih
    | some field =>
      obtain ⟨hfield, rfl⟩ := (field?_eq_some_iff h).1 hfind
      cases hlater : Json.lastField? field.name rest with
      | some later =>
        rw [flatMap_kept_cons_of_unused value rest fun _ _ _ => by simp [hlater]]
        simpa using ih
      | none =>
        refine List.Perm.trans ?_ (flatMap_kept_cons_perm h hfield hlater value).symm
        cases homitted : field.omitted value
        · simpa [hlater, homitted] using ih
        · simpa [hlater, homitted] using ih

theorem names_sublist (known : List Field) (fields : List (String × Json)) :
    ((known.flatMap (kept fields)).map Prod.fst).Sublist (known.map Field.name) := by
  induction known with
  | nil => exact .slnil
  | cons field rest ih =>
    have hfield : ((kept fields field).map Prod.fst).Sublist [field.name] := by
      unfold kept
      split
      · split_ifs <;> simp
      · simp
    simpa using hfield.append ih

/-- Up to the order of its fields, a pruned record is what it keeps of each of its fields, in the
order in which they are known. -/
theorem sortKeys_pruned (r : Record) (fields : List (String × Json)) :
    (pruned (.record r) (.object fields)).sortKeys =
      (Json.object ((r.fields (typeName fields)).flatMap (kept fields))).sortKeys := by
  have hnames := nodup_names r (typeName fields)
  have hperm := prunedFields_perm hnames fields
  rw [pruned]
  exact Json.sortKeys_object_eq_of_perm hperm
    ((hperm.map Prod.fst).nodup_iff.2 (hnames.sublist (names_sublist _ fields)))

section

variable {fields : List (String × Json)} {name : String} {value : Value} {json : Json}

theorem typeName_eq {s : String} (h : Json.lastField? "type" fields = some (.string s)) :
    typeName fields = s := by
  rw [typeName, h]

theorem kept_always (h : Json.lastField? name fields = some json) :
    kept fields (.always name value) = [(name, pruned value json)] := by
  simp [kept, Field.always, h]

theorem kept_nullable (h : Json.lastField? name fields = some json) (hnull : json.isNull = false) :
    kept fields (.nullable name value) = [(name, pruned value json)] := by
  simp [kept, Field.nullable, h, hnull]

theorem kept_type {s : String} (h : Json.lastField? "type" fields = some (.string s)) :
    kept fields (.always "type" .tag) = [("type", .string s)] := by
  rw [kept_always h]
  rfl

theorem kept_content {items : List Json}
    (h : Json.lastField? "content" fields = some (.array items)) :
    kept fields contentField = [("content", pruned (.records .node) (.array items))] :=
  kept_always h

/-- A nullable field that is missing or null is not kept. -/
theorem kept_nullable_eq_nil (h : ∀ json, Json.lastField? name fields = some json → json = .null) :
    kept fields (.nullable name value) = [] := by
  unfold kept Field.nullable
  cases hjson : Json.lastField? name fields with
  | none => rfl
  | some json => simp [h json hjson, Json.isNull]

end

/-! ## Object form -/

theorem exists_string {json : Json} (h : inObjectForm .tag json) : ∃ s, json = .string s := by
  cases json with
  | string s => exact ⟨s, rfl⟩
  | _ => simp [inObjectForm] at h

theorem fieldsInObjectForm_cons {known : List Field} {name : String} {field : Field}
    {value : Json} {rest : List (String × Json)} (hfield : field? known name = some field)
    (hvalue : inObjectForm field.value value) (hrest : fieldsInObjectForm known rest) :
    fieldsInObjectForm known ((name, value) :: rest) := by
  simp [fieldsInObjectForm, hfield, hvalue, hrest]

/-- A known field of a record in object form is itself in object form, unless it is omitted. -/
theorem inObjectForm_of_mem {known : List Field} (hnames : (known.map Field.name).Nodup)
    {fields : List (String × Json)} (h : fieldsInObjectForm known fields) {field : Field}
    (hfield : field ∈ known) {json : Json} (hjson : (field.name, json) ∈ fields)
    (homitted : field.omitted json = false) : inObjectForm field.value json := by
  induction fields with
  | nil => simp at hjson
  | cons entry rest ih =>
    obtain ⟨name, value⟩ := entry
    rw [fieldsInObjectForm, Bool.and_eq_true] at h
    rcases List.mem_cons.1 hjson with heq | hrest
    · obtain ⟨rfl, rfl⟩ := Prod.mk.inj heq
      simpa [(field?_eq_some_iff hnames).2 ⟨hfield, rfl⟩, homitted] using h.1
    · exact ih h.2 hrest

/-- A record in object form is an object, and what it keeps of its fields is in object form. -/
theorem exists_object {r : Record} {json : Json} (h : inObjectForm (.record r) json) :
    ∃ fields, json = .object fields ∧ ∀ field ∈ r.fields (typeName fields), ∀ value,
      Json.lastField? field.name fields = some value → field.omitted value = false →
        inObjectForm field.value value := by
  cases json with
  | object fields =>
    refine ⟨fields, rfl, fun field hfield value hvalue => ?_⟩
    rw [inObjectForm] at h
    exact inObjectForm_of_mem (nodup_names r _) h hfield (Json.mem_of_lastField? hvalue)
  | _ => simp [inObjectForm] at h

end Wire

end TicketMarkup
