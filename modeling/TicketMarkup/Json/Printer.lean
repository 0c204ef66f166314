import TicketMarkup.Json.Token

/-!
# Printing JSON

A value is written in one of two layouts: compact, as its tokens without anything between them, or
over several lines, each item and field on a line of its own, indented by two spaces for each level,
and a space after a colon. An empty array or object stays on one line in both.
-/

namespace TicketMarkup.Json

/-- A comma in front of what follows; after the last item there is none. -/
def separator {α : Type} (rest : List α) : List Token := if rest.isEmpty then [] else [.comma]

mutual

/-- The tokens of a value, in order. -/
def tokens : Json → List Token
  | .null => [.null]
  | .bool b => [.bool b]
  | .number n => [.number n]
  | .string s => [.string s]
  | .array items => .openArray :: itemTokens items ++ [.closeArray]
  | .object fields => .openObject :: fieldTokens fields ++ [.closeObject]

/-- The tokens of the items of an array. -/
def itemTokens : List Json → List Token
  | [] => []
  | item :: rest => tokens item ++ separator rest ++ itemTokens rest

/-- The tokens of the fields of an object. -/
def fieldTokens : List (String × Json) → List Token
  | [] => []
  | (key, value) :: rest =>
    .string key :: .colon :: tokens value ++ separator rest ++ fieldTokens rest

end

/-- The compact text of a value. -/
def compact (value : Json) : Text := value.tokens.flatMap Token.text

/-- A part of a layout: a token, or blanks between tokens. -/
inductive Layout
  | token (t : Token)
  | space
  | newline (level : Nat)
  deriving Repr, DecidableEq

/-- A part of a layout as it is written. -/
def Layout.text : Layout → Text
  | .token t => t.text
  | .space => [' ']
  | .newline level => '\n' :: List.replicate (2 * level) ' '

mutual

/-- The layout of a value over several lines, for a value that stands at the given level. -/
def layout (level : Nat) : Json → List Layout
  | .array [] => [.token .openArray, .token .closeArray]
  | .array (item :: rest) =>
    .token .openArray :: layoutItems (level + 1) (item :: rest)
      ++ [.newline level, .token .closeArray]
  | .object [] => [.token .openObject, .token .closeObject]
  | .object (field :: rest) =>
    .token .openObject :: layoutFields (level + 1) (field :: rest)
      ++ [.newline level, .token .closeObject]
  | .null => [.token .null]
  | .bool b => [.token (.bool b)]
  | .number n => [.token (.number n)]
  | .string s => [.token (.string s)]

/-- The layout of the items of an array, each on a line of its own. -/
def layoutItems (level : Nat) : List Json → List Layout
  | [] => []
  | item :: rest =>
    .newline level :: layout level item ++ (separator rest).map .token ++ layoutItems level rest

/-- The layout of the fields of an object, each on a line of its own. -/
def layoutFields (level : Nat) : List (String × Json) → List Layout
  | [] => []
  | (key, value) :: rest =>
    .newline level :: .token (.string key) :: .token .colon :: .space :: layout level value
      ++ (separator rest).map .token ++ layoutFields level rest

end

/-- The text of a value over several lines. -/
def pretty (value : Json) : Text := (value.layout 0).flatMap Layout.text

/-- The text of a value in either layout. -/
def print (isPretty : Bool) (value : Json) : Text := if isPretty then value.pretty else value.compact

end TicketMarkup.Json
