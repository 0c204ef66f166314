import TicketMarkup.Json.Basic

/-!
# Records in JSON

A record with known fields is written as an object, where each field has a name, fields may be in
any order and unknown fields do not matter; or as an array of the values of its fields in their
order, where fields at the end that may be missing can be left out. A value of a choice without
data is written as its name, or as an object from its name to nothing.
-/

namespace TicketMarkup.Json

/-- The value can be a record of so many fields. -/
def isRecord (width : Nat) : Json → Bool
  | .object _ => true
  | .array items => items.length ≤ width
  | _ => false

/-- A field of a record, by its position and name. -/
def column? (position : Nat) (name : String) : Json → Option Json
  | .object fields => lastField? name fields
  | .array items => items[position]?
  | _ => none

/-- Reads a field that may be missing or null. -/
def optional? {α : Type} (read? : Json → Option α) : Option Json → Option (Option α)
  | none | some .null => some none
  | some value => (read? value).map some

/-- The value is the name of a choice, or an object from the name to a value that `isNothing`. -/
def isChoice (name : String) (isNothing : Json → Bool) : Json → Bool
  | .string s => s == name
  | .object fields => fields.all (·.1 == name) && (lastField? name fields).any isNothing
  | _ => false

/-- The value is null. -/
def isNull : Json → Bool
  | .null => true
  | _ => false

/-- The value is null or an object without fields. -/
def isEmpty : Json → Bool
  | .null | .object [] => true
  | _ => false

/-- A field of a record is smaller than the record. -/
theorem sizeOf_column?_lt {position : Nat} {name : String} {json value : Json}
    (h : json.column? position name = some value) : sizeOf value < sizeOf json := by
  cases json <;> simp only [column?, reduceCtorEq] at h
  · have := List.sizeOf_lt_of_mem (List.mem_of_getElem? h)
    simp only [array.sizeOf_spec]
    omega
  · have := sizeOf_lastField?_lt h
    simp only [object.sizeOf_spec]
    omega

/-- The items of a field of a record are smaller than the record. -/
theorem sizeOf_column?_items_lt {position : Nat} {name : String} {json : Json} {items : List Json}
    (h : json.column? position name = some (.array items)) : sizeOf items < sizeOf json := by
  have := sizeOf_column?_lt h
  rw [array.sizeOf_spec] at this
  omega

end TicketMarkup.Json
