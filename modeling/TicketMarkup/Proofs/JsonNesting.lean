import TicketMarkup.Json.Parser
import TicketMarkup.Proofs.JsonTokens
import Mathlib.Tactic.SplitIfs

/-!
# Nesting of JSON

`parse?_print`: a printed value is read back exactly if at most 127 of its arrays and objects stand
inside each other, and is refused otherwise.

The machine that reads the tokens of a value inside `k` open containers comes to the value if the
containers inside it and those around it are at most 127, and stops without a value if they are more
(`run?_tokens`). What comes behind the value does not matter.
-/

namespace TicketMarkup.Json

/-! ## Containers inside each other -/

mutual

/-- The greatest number of arrays and objects of a value that stand inside each other. -/
def nesting : Json → Nat
  | .array items => nestingItems items + 1
  | .object fields => nestingFields fields + 1
  | .null | .bool _ | .number _ | .string _ => 0

/-- The greatest nesting of items. -/
def nestingItems : List Json → Nat
  | [] => 0
  | item :: rest => max item.nesting (nestingItems rest)

/-- The greatest nesting of the values of fields. -/
def nestingFields : List (String × Json) → Nat
  | [] => 0
  | (_, value) :: rest => max value.nesting (nestingFields rest)

end

theorem nestingItems_le {k : Nat} {items : List Json} :
    nestingItems items ≤ k ↔ ∀ item ∈ items, item.nesting ≤ k := by
  induction items with
  | nil => simp [nestingItems]
  | cons item rest ih => rw [nestingItems, Nat.max_le, ih, List.forall_mem_cons]

/-! ## The machine -/

namespace Machine

theorem run?_cons (m : Machine) (token : Token) (tokens : List Token) :
    m.run? (token :: tokens) = (m.step? token).bind (·.run? tokens) := List.foldlM_cons

theorem run?_of_step? {m m' : Machine} {token : Token} (h : m.step? token = some m')
    (tokens : List Token) : m.run? (token :: tokens) = m'.run? tokens := by
  rw [run?_cons, h]
  rfl

/-- The machine waits for a value. -/
def TakesValue (phase : Phase) : Prop := phase = .value ∨ phase = .firstItem

/-- The machine waits for the key of a field behind the given fields, latest first. -/
def TakesKey (fields : List (String × Json)) (phase : Phase) : Prop :=
  phase = .key fields ∨ phase = .firstKey ∧ fields = []

section

variable {stack : List Frame} {phase : Phase}

theorem step?_of_takesValue (h : TakesValue phase) {token : Token} (htoken : token ≠ .closeArray) :
    step? ⟨stack, phase⟩ token = begin? stack token := by
  rcases h with rfl | rfl
  · rfl
  · cases token <;> first | rfl | exact absurd rfl htoken

theorem step?_of_takesKey {fields : List (String × Json)} (h : TakesKey fields phase)
    (key : String) : step? ⟨stack, phase⟩ (.string key) = some ⟨stack, .colon fields key⟩ := by
  rcases h with rfl | ⟨rfl, rfl⟩ <;> rfl

/-- An array is opened if there is room for one more container. -/
theorem run?_openArray (hphase : TakesValue phase) (tokens : List Token) :
    run? ⟨stack, phase⟩ (.openArray :: tokens) =
      if stack.length + 1 ≤ maxNesting then run? ⟨.array [] :: stack, .firstItem⟩ tokens
      else none := by
  rw [run?_cons, step?_of_takesValue hphase (by simp), begin?]
  split_ifs <;> first | rfl | omega

/-- An object is opened if there is room for one more container. -/
theorem run?_openObject (hphase : TakesValue phase) (tokens : List Token) :
    run? ⟨stack, phase⟩ (.openObject :: tokens) =
      if stack.length + 1 ≤ maxNesting then run? ⟨stack, .firstKey⟩ tokens else none := by
  rw [run?_cons, step?_of_takesValue hphase (by simp), begin?]
  split_ifs <;> first | rfl | omega

end

mutual

/-- The machine takes a value if it has room for the containers in it. -/
theorem run?_tokens {stack : List Frame} {phase : Phase} (hstack : stack.length ≤ maxNesting)
    (hphase : TakesValue phase) (more : List Token) :
    ∀ json : Json, run? ⟨stack, phase⟩ (json.tokens ++ more) =
      if stack.length + json.nesting ≤ maxNesting then run? ⟨stack, .after json⟩ more else none
  | .null | .bool _ | .number _ | .string _ => by
    rw [nesting, Nat.add_zero, if_pos hstack]
    exact run?_of_step? (step?_of_takesValue hphase (by simp)) more
  | .array [] => by
    -- An array closed before its first item is left from the phase that `run?_itemTokens` starts in.
    show run? ⟨stack, phase⟩ (.openArray :: .closeArray :: more) = _
    rw [run?_openArray hphase, run?_of_step? rfl]
    rfl
  | .array (item :: rest) => by
    have hitems := fun hroom : stack.length + 1 ≤ maxNesting =>
      run?_itemTokens hroom (.inr rfl) more (item :: rest) [] (by simp)
    rw [tokens, List.cons_append, List.cons_append, List.append_assoc, run?_openArray hphase,
      nesting]
    split_ifs with hroom hnesting hnesting
    · exact (hitems hroom).trans (if_pos (by omega))
    · exact (hitems hroom).trans (if_neg (by omega))
    · omega
    · rfl
  | .object [] => by
    show run? ⟨stack, phase⟩ (.openObject :: .closeObject :: more) = _
    rw [run?_openObject hphase, run?_of_step? rfl]
    rfl
  | .object (field :: rest) => by
    have hfields := fun hroom : stack.length + 1 ≤ maxNesting =>
      run?_fieldTokens hroom more (field :: rest) [] (.inr ⟨rfl, rfl⟩) (by simp)
    rw [tokens, List.cons_append, List.cons_append, List.append_assoc, run?_openObject hphase,
      nesting]
    split_ifs with hroom hnesting hnesting
    · exact (hfields hroom).trans (if_pos (by omega))
    · exact (hfields hroom).trans (if_neg (by omega))
    · omega
    · rfl

/-- The machine takes the items of an array, behind those it has, and the end of the array. -/
theorem run?_itemTokens {stack : List Frame} {phase : Phase}
    (hstack : stack.length + 1 ≤ maxNesting) (hphase : TakesValue phase) (more : List Token) :
    ∀ items done : List Json, items ≠ [] →
      run? ⟨.array done :: stack, phase⟩ (itemTokens items ++ .closeArray :: more) =
        if stack.length + 1 + nestingItems items ≤ maxNesting then
          run? ⟨stack, .after (.array (done.reverse ++ items))⟩ more
        else none
  | [], _, hne => absurd rfl hne
  | [item], done, _ => by
    have hroom : (.array done :: stack).length ≤ maxNesting := hstack
    have hitem := run?_tokens hroom hphase (.closeArray :: more) item
    rw [run?_of_step? rfl, List.reverse_cons] at hitem
    simpa [itemTokens, separator, nestingItems] using hitem
  | item :: next :: rest, done, _ => by
    have hroom : (.array done :: stack).length ≤ maxNesting := hstack
    have hitem := run?_tokens hroom hphase
      (.comma :: (itemTokens (next :: rest) ++ .closeArray :: more)) item
    have hrest := run?_itemTokens hstack (.inl rfl) more (next :: rest) (item :: done) (by simp)
    rw [run?_of_step? rfl, hrest, ← ite_and, List.reverse_cons, List.append_assoc] at hitem
    rw [itemTokens, nestingItems, List.append_assoc, List.append_assoc]
    refine hitem.trans (if_congr ?_ rfl rfl)
    rw [List.length_cons]
    omega

/-- The machine takes the fields of an object, behind those it has, and the end of the object. -/
theorem run?_fieldTokens {stack : List Frame} {phase : Phase}
    (hstack : stack.length + 1 ≤ maxNesting) (more : List Token) :
    ∀ fields done : List (String × Json), TakesKey done phase → fields ≠ [] →
      run? ⟨stack, phase⟩ (fieldTokens fields ++ .closeObject :: more) =
        if stack.length + 1 + nestingFields fields ≤ maxNesting then
          run? ⟨stack, .after (.object (done.reverse ++ fields))⟩ more
        else none
  | [], _, _, hne => absurd rfl hne
  | [(key, value)], done, hphase, _ => by
    have hroom : (.object done key :: stack).length ≤ maxNesting := hstack
    have hvalue := run?_tokens hroom (.inl rfl) (.closeObject :: more) value
    rw [run?_of_step? rfl, List.reverse_cons] at hvalue
    simp only [fieldTokens, List.cons_append]
    rw [run?_of_step? (step?_of_takesKey hphase key), run?_of_step? rfl]
    simpa [separator, nestingFields] using hvalue
  | (key, value) :: field :: rest, done, hphase, _ => by
    have hroom : (.object done key :: stack).length ≤ maxNesting := hstack
    have hvalue := run?_tokens hroom (.inl rfl)
      (.comma :: (fieldTokens (field :: rest) ++ .closeObject :: more)) value
    have hrest := run?_fieldTokens hstack more (field :: rest) ((key, value) :: done) (.inl rfl)
      (by simp)
    rw [run?_of_step? rfl, hrest, ← ite_and, List.reverse_cons, List.append_assoc] at hvalue
    rw [fieldTokens]
    simp only [List.cons_append, List.append_assoc]
    rw [run?_of_step? (step?_of_takesKey hphase key), run?_of_step? rfl, nestingFields]
    refine hvalue.trans (if_congr ?_ rfl rfl)
    rw [List.length_cons]
    omega

end

end Machine

/-- Tokens of a value give the value if it is not nested too deeply. -/
theorem ofTokens?_tokens (json : Json) :
    ofTokens? json.tokens = if json.nesting ≤ maxNesting then some json else none := by
  have hroom : ([] : List Frame).length ≤ maxNesting := Nat.zero_le maxNesting
  have hrun := Machine.run?_tokens hroom (.inl rfl) [] json
  rw [List.append_nil, List.length_nil, Nat.zero_add] at hrun
  rw [ofTokens?, Machine.start, hrun]
  split_ifs <;> rfl

/-- **Reading back.** The text of a value, in either layout, is read back as the value if at most
127 of its arrays and objects stand inside each other, and is refused otherwise. -/
theorem parse?_print {json : Json} (h : json.IsRegular) (isPretty : Bool) :
    parse? (json.print isPretty) = if json.nesting ≤ maxNesting then some json else none := by
  rw [parse?, tokenize?_print h, Option.bind_some, ofTokens?_tokens]

end TicketMarkup.Json
