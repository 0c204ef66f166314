import TicketMarkup.Document.Build
import TicketMarkup.Document.Plain
import TicketMarkup.Document.Wire
import TicketMarkup.Wiki

/-!
# Request bodies

The tracker's interface has two versions: version 2 takes texts in wiki markup, version 3 takes
structured documents. This module reads versions and shapes the bodies of requests: descriptions,
comments and new issues.
-/

namespace TicketMarkup

/-- A version of the tracker's interface. -/
inductive ApiVersion
  | v2
  | v3
  deriving Repr, DecidableEq

namespace ApiVersion

/-- The number of a version. -/
def number : ApiVersion → Text
  | v2 => ['2']
  | v3 => ['3']

/-- The version with a number; blanks around it and any `v` before it do not matter. -/
def ofText? (t : Text) : Option ApiVersion :=
  match t.trim.dropWhile fun c => c = 'v' ∨ c = 'V' with
  | ['2'] => some v2
  | ['3'] => some v3
  | _ => none

/-- The message for a text that is no version. -/
def unsupported (t : Text) : Text :=
  "Unsupported API version: ".toList ++ t ++ ". Use 2 or 3.".toList

end ApiVersion

/-- The error of a text that is no version; it holds the text as it was given. -/
structure UnsupportedVersion where
  given : Text
  deriving Repr, DecidableEq

/-- The message of the error. -/
def UnsupportedVersion.message (error : UnsupportedVersion) : Text :=
  ApiVersion.unsupported error.given

/-- Reads the number of a version. -/
def ApiVersion.read (t : Text) : Except UnsupportedVersion ApiVersion :=
  match ofText? t with
  | some version => .ok version
  | none => .error ⟨t⟩

/-- What a body is sent as. -/
inductive BodyKind
  | description
  | comment
  deriving Repr, DecidableEq

/-- A new issue; its description is Markdown. -/
structure IssueDraft where
  project : Text
  issueType : Text
  summary : Text
  description : Option Text
  deriving Repr, DecidableEq

namespace Request

/-- A Markdown text as a version takes it. -/
def ofMarkdown (version : ApiVersion) (markdown : Text) : Json :=
  match version with
  | .v2 => .ofText (Wiki.ofMarkdown markdown)
  | .v3 => (Document.ofMarkdown markdown).toJson

/-- A plain text as a version takes it. -/
def ofPlainText (version : ApiVersion) (t : Text) : Json :=
  match version with
  | .v2 => .ofText t
  | .v3 => (Document.ofPlainText t).toJson

/-- A text that is plain or Markdown, as a version takes it. -/
def ofInput (version : ApiVersion) (isPlain : Bool) (t : Text) : Json :=
  if isPlain then ofPlainText version t else ofMarkdown version t

/-- The body of a request that sends a text. -/
def body (kind : BodyKind) (version : ApiVersion) (isPlain : Bool) (t : Text) : Json :=
  match kind with
  | .description => ofInput version isPlain t
  | .comment => .object [("body", ofInput version isPlain t)]

/-- The body of a request that creates an issue. -/
def issue (version : ApiVersion) (draft : IssueDraft) : Json :=
  let description := match draft.description with
    | some markdown => [("description", ofMarkdown version markdown)]
    | none => []
  .object [("fields", .object
    ([("project", .object [("key", .ofText draft.project)]),
      ("issuetype", .object [("name", .ofText draft.issueType)]),
      ("summary", .ofText draft.summary)] ++ description))]

end Request

end TicketMarkup
