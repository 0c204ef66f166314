import TicketMarkup.Json.Parser
import TicketMarkup.Readable.Render

/-!
# Readable text of JSON input

JSON text of a document, a string, a comment or an issue is parsed, the document in it is found, and
its readable text is given; a document that shows nothing has the empty text.
-/

namespace TicketMarkup.Readable

/-- Why JSON input has no readable text. -/
inductive InputError
  | invalidJson
  | noDocument
  deriving Repr, DecidableEq

/-- The readable text of JSON input. -/
def ofInput (input : Text) : Except InputError Text :=
  match Json.parse? input with
  | none => .error .invalidJson
  | some json =>
    match locate? json with
    | none => .error .noDocument
    | some document => .ok ((ofField document).getD [])

end TicketMarkup.Readable
