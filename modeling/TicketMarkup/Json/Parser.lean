import TicketMarkup.Json.Token

/-!
# Parsing JSON

A value is put together from its tokens by a machine with a stack of the arrays and objects that are
still open. Each token either fits what the machine waits for or ends the parse without a value, and
so does a container inside 127 others.
-/

namespace TicketMarkup.Json

/-- The greatest number of arrays and objects inside each other. -/
def maxNesting : Nat := 127

/-- A container whose end has not been read, with what it holds so far, latest first. -/
inductive Frame
  | array (items : List Json)
  | object (fields : List (String × Json)) (key : String)

/-- What the machine waits for. -/
inductive Phase
  | value
  | firstItem
  | firstKey
  | key (fields : List (String × Json))
  | colon (fields : List (String × Json)) (key : String)
  | after (value : Json)

/-- The open containers, innermost first, and the phase. -/
structure Machine where
  stack : List Frame
  phase : Phase

namespace Machine

/-- The machine before the first token. -/
def start : Machine := ⟨[], .value⟩

/-- Takes the first token of a value. -/
def begin? (stack : List Frame) : Token → Option Machine
  | .null => some ⟨stack, .after .null⟩
  | .bool b => some ⟨stack, .after (.bool b)⟩
  | .number n => some ⟨stack, .after (.number n)⟩
  | .string s => some ⟨stack, .after (.string s)⟩
  | .openArray => if stack.length < maxNesting then some ⟨.array [] :: stack, .firstItem⟩ else none
  | .openObject => if stack.length < maxNesting then some ⟨stack, .firstKey⟩ else none
  | _ => none

/-- Takes the token after a value, which belongs to the container around the value. -/
def continue? (value : Json) : List Frame → Token → Option Machine
  | .array items :: stack, .comma => some ⟨.array (value :: items) :: stack, .value⟩
  | .array items :: stack, .closeArray => some ⟨stack, .after (.array (value :: items).reverse)⟩
  | .object fields key :: stack, .comma => some ⟨stack, .key ((key, value) :: fields)⟩
  | .object fields key :: stack, .closeObject =>
    some ⟨stack, .after (.object ((key, value) :: fields).reverse)⟩
  | _, _ => none

/-- Takes a token. -/
def step? (m : Machine) (token : Token) : Option Machine :=
  match m.phase, token with
  | .value, token => begin? m.stack token
  | .firstItem, .closeArray => some ⟨m.stack.tail, .after (.array [])⟩
  | .firstItem, token => begin? m.stack token
  | .firstKey, .string key => some ⟨m.stack, .colon [] key⟩
  | .firstKey, .closeObject => some ⟨m.stack, .after (.object [])⟩
  | .key fields, .string key => some ⟨m.stack, .colon fields key⟩
  | .colon fields key, .colon => some ⟨.object fields key :: m.stack, .value⟩
  | .after value, token => continue? value m.stack token
  | _, _ => none

/-- Takes tokens in order. -/
def run? (m : Machine) (tokens : List Token) : Option Machine := tokens.foldlM step? m

/-- The value that has been read, if nothing is open. -/
def result? (m : Machine) : Option Json :=
  match m.stack, m.phase with
  | [], .after value => some value
  | _, _ => none

end Machine

/-- The value that tokens write. -/
def ofTokens? (tokens : List Token) : Option Json := (Machine.start.run? tokens).bind Machine.result?

/-- The value that a text writes. -/
def parse? (t : Text) : Option Json := (tokenize? t).bind ofTokens?

end TicketMarkup.Json
