import TicketMarkup.Block.Inspection
import TicketMarkup.CommandLine.Command
import TicketMarkup.Readable.Response

/-!
# Running commands

What a command prints, given the text that it reads. The outer layer reads the source of the command
and prints; all else is decided here.
-/

namespace TicketMarkup.CommandLine

/-- The name and version of the program, as it prints them. -/
def versionLine : Text := "jirafmt 0.1.0\n".toList

/-- Why a source gives no text. -/
inductive ReadError
  | missing
  | directory
  | invalidUtf8
  | other (message : Text)
  deriving Repr, DecidableEq

/-- Why a command fails. -/
inductive Failure
  | unreadable (source : Source) (error : ReadError)
  | invalidJson
  | noDocument
  deriving Repr, DecidableEq

/-- The wording of a read error. -/
def ReadError.message : ReadError → Text
  | missing => "No such file or directory (os error 2)".toList
  | directory => "Is a directory (os error 21)".toList
  | invalidUtf8 => "stream did not contain valid UTF-8".toList
  | other message => message

/-- The text of bytes in UTF-8. -/
def decodeUtf8 (bytes : ByteArray) : Except ReadError Text :=
  match String.fromUTF8? bytes with
  | some s => .ok s.toList
  | none => .error .invalidUtf8

/-- The name of a source in messages. -/
def Source.name : Source → Text
  | standardInput => "stdin".toList
  | file path => path

/-- The wording of a failure. -/
def Failure.message : Failure → Text
  | unreadable source error =>
    "Failed to read ".toList ++ source.name ++ [':', ' '] ++ error.message
  | invalidJson => "Input is not valid JSON".toList
  | noDocument => "Input does not contain an ADF document or a text body".toList

namespace Command

/-- What the program says before a command if it is to say what it does. -/
def banner : Command → Text
  | convert _ _ _ | inspect _ _ => "Running md command...\n".toList
  | body _ _ _ _ _ | issue _ _ _ _ | render _ => "Running Jira command...\n".toList

/-- A Markdown text converted to a target. -/
def converted (target : Target) (isPretty : Bool) (markdown : Text) : Text :=
  match target with
  | .wiki => Wiki.ofMarkdown markdown
  | .document => (Document.ofMarkdown markdown).toJson.print isPretty

/-- The events of a Markdown text, as JSON or as a table. -/
def inspected (asJson : Bool) (markdown : Text) : Text :=
  if asJson then (Inspection.json (classify markdown)).pretty ++ ['\n']
  else Inspection.table (classify markdown)

/-- A request body as it is printed, its fields sorted by name. -/
def printed (isPretty : Bool) (json : Json) : Text := json.sortKeys.print isPretty ++ ['\n']

/-- What a command prints when its source holds `input`; an issue without a source has no
description. -/
def output (command : Command) (input : Option Text) : Except Failure Text :=
  let text := input.getD []
  match command with
  | convert _ target isPretty => .ok (converted target isPretty text ++ ['\n'])
  | inspect _ asJson => .ok (inspected asJson text)
  | body kind _ version isPlain isPretty =>
    .ok (printed isPretty (Request.body kind version isPlain text))
  | issue _ version draft isPretty =>
    .ok (printed isPretty (Request.issue version { draft with description := input }))
  | render _ =>
    match Readable.ofInput text with
    | .ok t => .ok (t ++ ['\n'])
    | .error .invalidJson => .error .invalidJson
    | .error .noDocument => .error .noDocument

/-- What a command prints when reading its source gives `input`. -/
def run (command : Command) (input : Source → Except ReadError Text) : Except Failure Text :=
  match command.source? with
  | none => command.output none
  | some source =>
    match input source with
    | .ok text => command.output (some text)
    | .error error => .error (.unreadable source error)

end Command

end TicketMarkup.CommandLine
