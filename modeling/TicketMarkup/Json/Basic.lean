import TicketMarkup.Text.Basic

/-!
# JSON values

The values of JSON text. Objects keep their fields in order, as they are written; of two fields
with one name the later counts. Natural numbers below `2 ^ 64` that are written as plain digits are
kept apart from all other numbers, because only they are levels and versions.
-/

namespace TicketMarkup

/-- A JSON number: a natural number below `2 ^ 64` written in digits only, or any other number,
`digits * 10 ^ exponent` with its sign. -/
inductive JsonNumber
  | natural (n : Nat)
  | decimal (negative : Bool) (digits : Nat) (exponent : Int)
  deriving Repr, DecidableEq

/-- A JSON value. -/
inductive Json
  | null
  | bool (b : Bool)
  | number (n : JsonNumber)
  | string (s : String)
  | array (items : List Json)
  | object (fields : List (String × Json))
  deriving Repr

namespace Json

/-- The JSON string with the given characters. -/
def ofText (t : Text) : Json := .string (String.ofList t)

/-- The JSON number of a natural number. -/
def ofNat (n : Nat) : Json := .number (.natural n)

/-- The characters of a JSON string. -/
def text? : Json → Option Text
  | .string s => some s.toList
  | _ => none

/-- The value of a natural number. -/
def nat? : Json → Option Nat
  | .number (.natural n) => some n
  | _ => none

/-- The items of an array. -/
def items? : Json → Option (List Json)
  | .array items => some items
  | _ => none

/-- The value of the last field with the given name. -/
def lastField? (name : String) : List (String × Json) → Option Json
  | [] => none
  | (key, value) :: rest =>
    match lastField? name rest with
    | some later => some later
    | none => if key = name then some value else none

/-- The value of a field of an object. -/
def get? : Json → String → Option Json
  | .object fields, name => lastField? name fields
  | _, _ => none

mutual

/-- The same value with the fields of every object in the order of their names. -/
def sortKeys : Json → Json
  | .array items => .array (sortKeysItems items)
  | .object fields => .object ((sortKeysFields fields).mergeSort fun f g => f.1 ≤ g.1)
  | value => value

/-- The items of an array with sorted fields. -/
def sortKeysItems : List Json → List Json
  | [] => []
  | item :: rest => sortKeys item :: sortKeysItems rest

/-- The fields of an object, not sorted themselves, with sorted fields inside their values. -/
def sortKeysFields : List (String × Json) → List (String × Json)
  | [] => []
  | (key, value) :: rest => (key, sortKeys value) :: sortKeysFields rest

end

theorem sizeOf_lastField?_lt {name : String} {fields : List (String × Json)} {value : Json}
    (h : lastField? name fields = some value) : sizeOf value < sizeOf fields := by
  induction fields with
  | nil => simp [lastField?] at h
  | cons field rest ih =>
    obtain ⟨key, v⟩ := field
    simp only [lastField?] at h
    split at h
    · next later hlater =>
      have := ih (hlater.trans h)
      simp only [List.cons.sizeOf_spec]
      omega
    · split at h
      · obtain rfl := Option.some.inj h
        simp only [List.cons.sizeOf_spec, Prod.mk.sizeOf_spec]
        omega
      · simp at h

/-- A field of an object is smaller than the object. -/
theorem sizeOf_get?_lt {json value : Json} {name : String} (h : json.get? name = some value) :
    sizeOf value < sizeOf json := by
  cases json <;> simp only [get?, reduceCtorEq] at h
  have := sizeOf_lastField?_lt h
  simp only [object.sizeOf_spec]
  omega

/-- The items of a field of an object are smaller than the object. -/
theorem sizeOf_get?_items_lt {json : Json} {name : String} {items : List Json}
    (h : json.get? name = some (.array items)) : sizeOf items < sizeOf json := by
  have := sizeOf_get?_lt h
  rw [array.sizeOf_spec] at this
  omega

end Json

end TicketMarkup
