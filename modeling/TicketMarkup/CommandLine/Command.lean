import TicketMarkup.CommandLine.Arguments
import TicketMarkup.Request
import TicketMarkup.Text.Lines

/-!
# Commands

The commands of the program, and how command lines and environment variables give them. An option
that is given beats its variable, and a variable beats the default; a variable that is not needed is
not looked at.
-/

namespace TicketMarkup.CommandLine

/-- Where a command reads from. -/
inductive Source
  | standardInput
  | file (path : Text)
  deriving Repr, DecidableEq

/-- What Markdown is converted to. -/
inductive Target
  | wiki
  | document
  deriving Repr, DecidableEq

/-- A command with its options. -/
inductive Command
  | convert (source : Source) (target : Target) (isPretty : Bool)
  | inspect (source : Source) (asJson : Bool)
  | body (kind : BodyKind) (source : Source) (version : ApiVersion) (isPlain isPretty : Bool)
  | issue (description : Option Source) (version : ApiVersion) (draft : IssueDraft)
      (isPretty : Bool)
  | render (source : Source)
  deriving Repr, DecidableEq

/-- A command, and whether the program says what it does. -/
structure Invocation where
  verbose : Bool
  command : Command
  deriving Repr, DecidableEq

/-- The environment variables that are set. -/
abbrev Environment := String → Option Text

/-- The source that a path names: a single dash is standard input. -/
def Source.ofPath (path : Text) : Source :=
  match Text.splitOn '/' path with
  | ['-'] :: rest =>
    if rest.all fun part => part = [] ∨ part = ['.'] then standardInput else file path
  | _ => file path

/-- The source that an optional path names. -/
def Source.ofPath? : Option Text → Source
  | some path => ofPath path
  | none => standardInput

/-- The command that reads from a source, if any. -/
def Command.source? : Command → Option Source
  | convert source _ _ | inspect source _ | body _ source _ _ _ | render source => some source
  | issue description _ _ _ => description

/-! ## Values -/

/-- The value of an option, of its variable, or the default. -/
def Given.value (g : Given) (environment : Environment) (name envName default : String) : Text :=
  ((g.option? name).or (environment envName)).getD default.toList

/-- The target with a name. -/
def Target.ofText? (t : Text) : Except Stop Target :=
  match String.ofList t with
  | "wiki" => .ok wiki
  | "adf" => .ok document
  | _ => .error .usage

/-- The version of the interface that is asked for, version 3 by default. -/
def Given.version (g : Given) (environment : Environment) : Except Stop ApiVersion :=
  match ApiVersion.read (g.value environment "api-version" "JIRA_API_VERSION" "3") with
  | .ok version => .ok version
  | .error _ => .error .usage

/-- Whether a level makes the program say what it does; the variable is either true or false. -/
def Given.verbose (g : Given) (environment : Environment) : Except Stop Bool :=
  if "verbose" ∈ g.flags then .ok true
  else
    match (environment "JIRAFMT_VERBOSE").map String.ofList with
    | none | some "false" => .ok false
    | some "true" => .ok true
    | some _ => .error .usage

/-! ## Levels -/

/-- The arguments before the first name. -/
def topSpec : Spec :=
  { flags := ["verbose"], commands := ["md", "jira"], takesVersion := true }

/-- The arguments of a level that only leads to others. -/
def groupSpec (commands : List String) : Spec := { flags := ["verbose"], commands := commands }

/-- The arguments of a conversion. -/
def convertSpec : Spec :=
  { flags := ["verbose", "pretty"], options := ["to"], shortOptions := [('t', "to")],
    takesFile := true }

/-- The arguments of an inspection. -/
def inspectSpec : Spec := { flags := ["verbose", "json"], takesFile := true }

/-- The arguments of a description or comment. -/
def bodySpec : Spec :=
  { flags := ["verbose", "plain", "pretty"], options := ["api-version"], takesFile := true }

/-- The arguments of an issue. -/
def issueSpec : Spec :=
  { flags := ["verbose", "pretty"],
    options := ["summary", "project", "issue-type", "description", "api-version"] }

/-- The arguments of a rendering. -/
def renderSpec : Spec := { flags := ["verbose"], takesFile := true }

/-! ## Commands of levels -/

/-- The conversion that is given. -/
def convertCommand (environment : Environment) (g : Given) : Except Stop Command := do
  let target ← Target.ofText? (g.value environment "to" "JIRAFMT_TARGET" "wiki")
  .ok (.convert (Source.ofPath? g.file) target ("pretty" ∈ g.flags))

/-- The inspection that is given. -/
def inspectCommand (g : Given) : Command :=
  .inspect (Source.ofPath? g.file) ("json" ∈ g.flags)

/-- The description or comment that is given. -/
def bodyCommand (kind : BodyKind) (environment : Environment) (g : Given) :
    Except Stop Command := do
  let version ← g.version environment
  .ok (.body kind (Source.ofPath? g.file) version ("plain" ∈ g.flags) ("pretty" ∈ g.flags))

/-- The issue that is given; it needs a summary and a project, and the path of its description is
not empty. -/
def issueCommand (environment : Environment) (g : Given) : Except Stop Command := do
  let version ← g.version environment
  let description := g.option? "description"
  match g.option? "summary", (g.option? "project").or (environment "JIRA_PROJECT") with
  | some summary, some project =>
    let issueType := (g.option? "issue-type").getD "Task".toList
    if description = some [] then .error .usage
    else
      .ok (.issue (description.map Source.ofPath) version ⟨project, issueType, summary, none⟩
        ("pretty" ∈ g.flags))
  | _, _ => .error .usage

/-- Reads a level of a command line and goes on with the name of the next level, if one is given,
and the arguments left for it. -/
def enter {α : Type} (environment : Environment) (spec : Spec) (arguments : List Text)
    (go : Given → Option (String × List Text) → Except Stop (Bool × α)) :
    Except Stop (Bool × α) := do
  let level ← spec.scan .nothing arguments
  let verbose ← level.given.verbose environment
  let (verboseBelow, result) ← go level.given level.next
  .ok (verbose || verboseBelow, result)

/-- Reads the last level of a command line. -/
def leave (environment : Environment) (spec : Spec) (arguments : List Text)
    (command : Given → Except Stop Command) : Except Stop (Bool × Command) :=
  enter environment spec arguments fun given _ => do .ok (false, ← command given)

/-- The command of the arguments after `md`. -/
def parseMarkdown (environment : Environment) (arguments : List Text) :
    Except Stop (Bool × Command) :=
  enter environment (groupSpec ["convert", "inspect"]) arguments fun _ next =>
    match next with
    | some ("convert", rest) => leave environment convertSpec rest (convertCommand environment)
    | some (_, rest) => leave environment inspectSpec rest fun given => .ok (inspectCommand given)
    | none => .error .usage

/-- The command of the arguments after `payload`. -/
def parsePayload (environment : Environment) (arguments : List Text) :
    Except Stop (Bool × Command) :=
  enter environment (groupSpec ["description", "comment", "issue"]) arguments fun _ next =>
    match next with
    | some ("description", rest) =>
      leave environment bodySpec rest (bodyCommand .description environment)
    | some ("comment", rest) => leave environment bodySpec rest (bodyCommand .comment environment)
    | some (_, rest) => leave environment issueSpec rest (issueCommand environment)
    | none => .error .usage

/-- The command of the arguments after `jira`. -/
def parseTracker (environment : Environment) (arguments : List Text) :
    Except Stop (Bool × Command) :=
  enter environment (groupSpec ["payload", "render"]) arguments fun _ next =>
    match next with
    | some ("payload", rest) => parsePayload environment rest
    | some (_, rest) =>
      leave environment renderSpec rest fun given => .ok (.render (Source.ofPath? given.file))
    | none => .error .usage

/-- The command of a command line. -/
def parse (environment : Environment) (arguments : List Text) : Except Stop Invocation := do
  let (verbose, command) ← enter environment topSpec arguments fun _ next =>
    match next with
    | some ("md", rest) => parseMarkdown environment rest
    | some (_, rest) => parseTracker environment rest
    | none => .error .usage
  .ok ⟨verbose, command⟩

end TicketMarkup.CommandLine
