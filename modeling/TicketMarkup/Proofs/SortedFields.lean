import TicketMarkup.Proofs.Elements
import TicketMarkup.Proofs.FieldOrder
import TicketMarkup.Proofs.JsonNesting
import TicketMarkup.Readable.Response

/-!
# Reading values with sorted fields

`ofInput_print_sortKeys`: the readable text of a value that is printed with sorted fields is that of
the value as it stands.

1. Sorting is stable, so of two fields with one name the same one counts (`lastField?_mergeSort`),
   and a field has the value that it had, sorted (`get?_sortKeys`).
2. The kind and the content of an element are read from such fields (`Element.ofJson_sortKeys`), and
   so is the place of the document (`Readable.locate?_sortKeys`).
3. Numbers and nesting are those of the unsorted value, so the text of the sorted value is read back
   if the unsorted value is not nested too deeply (`parse?_print_sortKeys`).
-/

namespace TicketMarkup

namespace Json

/-! ## Fields -/

variable {name : String} {fields : List (String × Json)} {json : Json}

theorem sortKeysItems_eq_map (items : List Json) : sortKeysItems items = items.map sortKeys := by
  induction items with
  | nil => rfl
  | cons item rest ih => rw [sortKeysItems, ih, List.map_cons]

theorem lastField?_eq_getLast?_filter (name : String) (fields : List (String × Json)) :
    lastField? name fields = ((fields.filter (·.1 = name)).getLast?).map Prod.snd := by
  induction fields with
  | nil => rfl
  | cons field rest ih =>
    obtain ⟨key, value⟩ := field
    rw [lastField?, ih]
    by_cases hkey : key = name
    · rw [List.filter_cons_of_pos (by simpa using hkey), List.getLast?_cons, if_pos hkey]
      cases (rest.filter (·.1 = name)).getLast? <;> rfl
    · rw [List.filter_cons_of_neg (by simpa using hkey), if_neg hkey]
      cases (rest.filter (·.1 = name)).getLast? <;> rfl

/-- The fields with one name are in the same order after sorting. -/
theorem filter_mergeSort (name : String) (fields : List (String × Json)) :
    (fields.mergeSort fun f g => f.1 ≤ g.1).filter (·.1 = name) =
      fields.filter (·.1 = name) := by
  have hsorted : (fields.filter (·.1 = name)).Pairwise fun f g => decide (f.1 ≤ g.1) := by
    apply List.pairwise_of_forall_mem_list
    intro f hf g hg
    have hname := (List.mem_filter.1 hf).2
    have hname' := (List.mem_filter.1 hg).2
    rw [decide_eq_true_eq] at hname hname' ⊢
    have hsame : f.1 = g.1 := hname.trans hname'.symm
    exact hsame ▸ String.le_refl f.1
  have hsublist := List.sublist_mergeSort (fun f g h => by simpa using String.le_trans)
    (fun f g => by simpa using String.le_total f.1 g.1) hsorted List.filter_sublist
  have hsame := hsublist.filter (·.1 = name)
  simp only [List.filter_filter, Bool.and_self] at hsame
  exact (hsame.eq_of_length ((List.mergeSort_perm fields _).filter _).length_eq.symm).symm

theorem lastField?_mergeSort (name : String) (fields : List (String × Json)) :
    lastField? name (fields.mergeSort fun f g => f.1 ≤ g.1) = lastField? name fields := by
  rw [lastField?_eq_getLast?_filter, filter_mergeSort, lastField?_eq_getLast?_filter]

theorem lastField?_map (f : Json → Json) (name : String) (fields : List (String × Json)) :
    lastField? name (fields.map fun field => (field.1, f field.2)) =
      (lastField? name fields).map f := by
  induction fields with
  | nil => rfl
  | cons field rest ih =>
    rw [List.map_cons, lastField?, lastField?, ih]
    cases lastField? name rest with
    | some later => rfl
    | none => split_ifs <;> rfl

/-- A field of a value with sorted fields is the field of the value, with its own fields sorted. -/
theorem get?_sortKeys (json : Json) (name : String) :
    json.sortKeys.get? name = (json.get? name).map sortKeys := by
  cases json with
  | object fields =>
    rw [sortKeys, get?, get?, lastField?_mergeSort, sortKeysFields_eq_map, lastField?_map]
  | _ => rfl

theorem text?_sortKeys (json : Json) : json.sortKeys.text? = json.text? := by
  cases json <;> rfl

theorem nat?_sortKeys (json : Json) : json.sortKeys.nat? = json.nat? := by
  cases json <;> rfl

/-! ## Printed values -/

theorem isRegular_of_mem_items {item : Json} {items : List Json} (h : (array items).IsRegular)
    (hitem : item ∈ items) : item.IsRegular := by
  have htokens : item.tokens ⊆ itemTokens items := by
    clear h
    induction items with
    | nil => exact absurd hitem List.not_mem_nil
    | cons first rest ih =>
      rw [itemTokens, List.append_assoc]
      rcases List.mem_cons.1 hitem with rfl | hrest
      · exact List.subset_append_left _ _
      · exact List.subset_append_of_subset_right _
          (List.subset_append_of_subset_right _ (ih hrest))
  intro token htoken
  apply h
  rw [tokens]
  exact List.mem_cons_of_mem _ (List.mem_append_left _ (htokens htoken))

theorem isRegular_of_mem_fields {field : String × Json} (h : (object fields).IsRegular)
    (hfield : field ∈ fields) : field.2.IsRegular := by
  have htokens : field.2.tokens ⊆ fieldTokens fields := by
    clear h
    induction fields with
    | nil => exact absurd hfield List.not_mem_nil
    | cons first rest ih =>
      obtain ⟨key, value⟩ := first
      rw [fieldTokens, List.cons_append, List.cons_append, List.append_assoc]
      refine List.subset_cons_of_subset _ (List.subset_cons_of_subset _ ?_)
      rcases List.mem_cons.1 hfield with rfl | hrest
      · exact List.subset_append_left _ _
      · exact List.subset_append_of_subset_right _
          (List.subset_append_of_subset_right _ (ih hrest))
  intro token htoken
  apply h
  rw [tokens]
  exact List.mem_cons_of_mem _ (List.mem_append_left _ (htokens htoken))

theorem nestingFields_le {k : Nat} :
    nestingFields fields ≤ k ↔ ∀ f ∈ fields, f.2.nesting ≤ k := by
  induction fields with
  | nil => simp [nestingFields]
  | cons f rest ih => rw [nestingFields, Nat.max_le, ih, List.forall_mem_cons]

theorem sizeOf_lt_of_mem_fields {field : String × Json} (h : field ∈ fields) :
    sizeOf field.2 < sizeOf (object fields) := by
  obtain ⟨key, value⟩ := field
  have hfield := List.sizeOf_lt_of_mem h
  rw [Prod.mk.sizeOf_spec] at hfield
  show sizeOf value < _
  rw [object.sizeOf_spec]
  omega

theorem sizeOf_lt_of_mem_items {item : Json} {items : List Json} (h : item ∈ items) :
    sizeOf item < sizeOf (array items) := by
  have hitem := List.sizeOf_lt_of_mem h
  rw [array.sizeOf_spec]
  omega

/-- The fields of an object with sorted fields are the same ones, with their own fields sorted. -/
theorem forall_mem_sortKeys {p : String × Json → Prop} :
    (∀ f ∈ (sortKeysFields fields).mergeSort fun f g => f.1 ≤ g.1, p f) ↔
      ∀ f ∈ fields, p (f.1, f.2.sortKeys) := by
  simp only [List.mem_mergeSort, sortKeysFields_eq_map, List.forall_mem_map]

theorem IsRegular.sortKeys : ∀ {json : Json}, json.IsRegular → json.sortKeys.IsRegular
  | .array items, h => by
    rw [Json.sortKeys, sortKeysItems_eq_map]
    refine isRegular_array (List.forall_mem_map.2 fun item hitem => ?_)
    exact (isRegular_of_mem_items h hitem).sortKeys
  | .object fields, h => by
    rw [Json.sortKeys]
    refine isRegular_object (forall_mem_sortKeys.2 fun f hf => ?_)
    exact (isRegular_of_mem_fields h hf).sortKeys
  | .null, h | .bool _, h | .number _, h | .string _, h => h
termination_by json => sizeOf json
decreasing_by
  · exact sizeOf_lt_of_mem_items hitem
  · exact sizeOf_lt_of_mem_fields hf

theorem nesting_sortKeys : ∀ json : Json, json.sortKeys.nesting = json.nesting
  | .array items => by
    rw [sortKeys, sortKeysItems_eq_map, nesting, nesting, Nat.add_right_cancel_iff]
    refine eq_of_forall_ge_iff fun k => ?_
    rw [nestingItems_le, nestingItems_le, List.forall_mem_map]
    exact forall₂_congr fun item hitem => by rw [nesting_sortKeys item]
  | .object fields => by
    rw [sortKeys, nesting, nesting, Nat.add_right_cancel_iff]
    refine eq_of_forall_ge_iff fun k => ?_
    rw [nestingFields_le, nestingFields_le, forall_mem_sortKeys]
    exact forall₂_congr fun f hf => by rw [nesting_sortKeys f.2]
  | .null | .bool _ | .number _ | .string _ => rfl
termination_by json => sizeOf json
decreasing_by
  · exact sizeOf_lt_of_mem_items hitem
  · exact sizeOf_lt_of_mem_fields hf

/-- The text of a value with sorted fields is read back as that value. -/
theorem parse?_print_sortKeys {json : Json} (h : json.IsRegular) (isPretty : Bool) :
    parse? (json.sortKeys.print isPretty) =
      if json.nesting ≤ maxNesting then some json.sortKeys else none := by
  rw [parse?_print h.sortKeys, nesting_sortKeys]

end Json

/-! ## Elements -/

namespace Element

theorem attribute?_sortKeys (name : String) (json : Json) :
    attribute? name json.sortKeys = (attribute? name json).map Json.sortKeys := by
  rw [attribute?, attribute?, json.get?_sortKeys]
  cases json.get? "attrs" with
  | none => rfl
  | some attrs => exact attrs.get?_sortKeys name

/-- A function that does not look at the order of fields reads sorted fields like others. -/
theorem bind_map_sortKeys {α : Type} {read? : Json → Option α}
    (hread : ∀ json : Json, read? json.sortKeys = read? json) (value : Option Json) :
    (value.map Json.sortKeys).bind read? = value.bind read? := by
  cases value with
  | none => rfl
  | some json => exact hread json

theorem kindOfType_sortKeys (name : String) (json : Json) :
    kindOfType name json.sortKeys = kindOfType name json := by
  unfold kindOfType
  simp only [attribute?_sortKeys, json.get?_sortKeys, bind_map_sortKeys Json.text?_sortKeys,
    bind_map_sortKeys Json.nat?_sortKeys]

theorem kindOf_sortKeys (json : Json) : kindOf json.sortKeys = kindOf json := by
  rw [kindOf, kindOf, json.get?_sortKeys]
  cases json.get? "type" with
  | none => rfl
  | some type =>
    cases type with
    | string name => exact kindOfType_sortKeys name json
    | _ => rfl

/-- Sorting fields changes no element. -/
theorem ofJson_sortKeys (json : Json) : ofJson json.sortKeys = ofJson json := by
  rw [ofJson_eq, ofJson_eq json, kindOf_sortKeys, json.get?_sortKeys]
  congr 1
  cases h : json.get? "content" with
  | none => rfl
  | some content =>
    cases content with
    | array items =>
      show (Json.sortKeysItems items).map ofJson = items.map ofJson
      rw [Json.sortKeysItems_eq_map, List.map_map]
      exact List.map_congr_left fun item hitem => ofJson_sortKeys item
    | _ => rfl
termination_by sizeOf json
decreasing_by
  have hitem := List.sizeOf_lt_of_mem hitem
  have hitems := Json.sizeOf_get?_items_lt h
  omega

end Element

/-! ## Documents in values -/

namespace Readable

theorem isDocument_sortKeys (json : Json) : isDocument json.sortKeys = isDocument json := by
  unfold isDocument
  simp only [json.get?_sortKeys]
  congr 1
  · congr 1
    · rcases json.get? "version" with _ | _ | _ | _ | _ | _ | _ <;> rfl
    · rcases json.get? "type" with _ | _ | _ | _ | _ | _ | _ <;> rfl
  · rcases json.get? "content" with _ | _ | _ | _ | _ | _ | _ <;> rfl

theorem locate?_of_text?_eq_none {json : Json} (h : json.text? = none) :
    locate? json =
      if isDocument json then some json
      else (json.get? "body").or ((json.get? "fields").bind (·.get? "description")) := by
  unfold locate?
  cases json with
  | string s => exact absurd h (by simp [Json.text?])
  | object fields =>
    rw [Bool.or_false]
    cases (Json.object fields).get? "body" <;> rfl
  | _ => rfl

/-- The document is found in the same place. -/
theorem locate?_sortKeys (json : Json) :
    locate? json.sortKeys = (locate? json).map Json.sortKeys := by
  by_cases h : json.text? = none
  · rw [locate?_of_text?_eq_none h, locate?_of_text?_eq_none (json.text?_sortKeys.trans h),
      isDocument_sortKeys, json.get?_sortKeys, json.get?_sortKeys]
    split_ifs
    · rfl
    · rw [Option.map_or]
      congr 1
      cases json.get? "fields" with
      | none => rfl
      | some fields => exact fields.get?_sortKeys "description"
  · cases json with
    | string s => rfl
    | _ => exact absurd rfl h

/-- A description or comment has the same text. -/
theorem ofField_sortKeys (json : Json) : ofField json.sortKeys = ofField json := by
  cases hjson : json with
  | object fields =>
    have htype := json.get?_sortKeys "type"
    have hdocument : ofDocument json.sortKeys = ofDocument json := by
      rw [ofDocument, Element.ofJson_sortKeys, ofDocument]
    rw [hjson, Json.sortKeys] at htype hdocument
    rw [Json.sortKeys, ofField, ofField, htype, hdocument]
    rcases (Json.object fields).get? "type" with _ | _ | _ | _ | _ | _ | _ <;> rfl
  | _ => rfl

/-- **Reading sorted fields.** The text of a value that is printed with sorted fields is that of the
document in the value. -/
theorem ofInput_print_sortKeys {json document : Json} (hregular : json.IsRegular)
    (hnesting : json.nesting ≤ Json.maxNesting) (hlocate : locate? json = some document)
    (isPretty : Bool) :
    ofInput (json.sortKeys.print isPretty) = .ok ((ofField document).getD []) := by
  have hparse := Json.parse?_print_sortKeys hregular isPretty
  have hsorted : locate? json.sortKeys = some document.sortKeys := by
    rw [locate?_sortKeys, hlocate]
    rfl
  rw [if_pos hnesting] at hparse
  simp only [ofInput, hparse, hsorted, ofField_sortKeys]

end Readable

end TicketMarkup
