import TicketMarkup.Text.Basic

/-!
# Command line arguments

A command line has levels: each level takes its own flags and options, and either a name that leads
to the next level or a file. The arguments of a level are read in order. An option takes its value
from the same argument or from the next one, `--` ends flags and options, and nothing may be given
twice at one level.
-/

namespace TicketMarkup.CommandLine

/-- Why a command line gives no command: it is wrong, or it asks for the version. -/
inductive Stop
  | usage
  | version
  deriving Repr, DecidableEq

/-- What a level takes. Names of flags and options are without their dashes. -/
structure Spec where
  flags : List String := []
  options : List String := []
  shortOptions : List (Char × String) := []
  commands : List String := []
  takesFile : Bool := false
  takesVersion : Bool := false
  deriving Repr, DecidableEq

/-- What has been given at a level. -/
structure Given where
  flags : List String
  options : List (String × Text)
  file : Option Text
  deriving Repr, DecidableEq

/-- What is given at a level, and the name of the next level with the arguments left for it. -/
structure Level where
  given : Given
  next : Option (String × List Text)
  deriving Repr, DecidableEq

/-- What an argument is at a level. -/
inductive Argument
  | flag (name : String)
  | option (name : String) (value : Option Text)
  | version
  | ending
  | positional
  | unknown
  deriving Repr, DecidableEq

namespace Given

/-- Nothing is given before the first argument. -/
def nothing : Given := ⟨[], [], none⟩

/-- The value of an option. -/
def option? (g : Given) (name : String) : Option Text := g.options.lookup name

/-- Adds a flag that is not given yet. -/
def addFlag (g : Given) (name : String) : Except Stop Given :=
  if name ∈ g.flags then .error .usage else .ok { g with flags := name :: g.flags }

/-- Adds an option that is not given yet. -/
def addOption (g : Given) (name : String) (value : Text) : Except Stop Given :=
  if (g.option? name).isSome then .error .usage
  else .ok { g with options := (name, value) :: g.options }

/-- Adds a file, if the level takes one and none is given yet. -/
def addFile (spec : Spec) (g : Given) (path : Text) : Except Stop Given :=
  if spec.takesFile ∧ g.file = none ∧ path ≠ [] then .ok { g with file := some path }
  else .error .usage

end Given

/-- The argument is not a value: it starts with a dash and is more than that. -/
def isDashed (argument : Text) : Bool :=
  match argument with
  | '-' :: _ :: _ => true
  | _ => false

namespace Spec

/-- The value that an argument holds itself, after an equals sign. -/
def attached (t : Text) : Option Text :=
  match t with
  | '=' :: value => some value
  | _ => none

/-- An argument of two dashes and a name, after the dashes. -/
def readLong (spec : Spec) (t : Text) : Argument :=
  let name := String.ofList (t.takeWhile (· != '='))
  let value := attached (t.dropWhile (· != '='))
  if name ∈ spec.options then .option name value
  else if value.isSome then .unknown
  else if name ∈ spec.flags then .flag name
  else if spec.takesVersion ∧ name = "version" then .version
  else .unknown

/-- An argument of one dash and a letter; what follows the letter is the value of an option. -/
def readShort (spec : Spec) (letter : Char) (rest : Text) : Argument :=
  match spec.shortOptions.lookup letter with
  | some name =>
    let value := if rest = [] then none else some ((attached rest).getD rest)
    .option name value
  | none => if spec.takesVersion ∧ letter = 'V' then .version else .unknown

/-- What an argument is. -/
def read (spec : Spec) (argument : Text) : Argument :=
  match argument with
  | '-' :: '-' :: [] => .ending
  | '-' :: '-' :: t => spec.readLong t
  | '-' :: letter :: rest => spec.readShort letter rest
  | _ => .positional

/-- Reads the arguments of a level after those that are given. -/
def scan (spec : Spec) (given : Given) (arguments : List Text) : Except Stop Level :=
  match arguments with
  | [] => .ok ⟨given, none⟩
  | argument :: rest =>
    if String.ofList argument ∈ spec.commands then .ok ⟨given, some (String.ofList argument, rest)⟩
    else
      match spec.read argument with
      | .flag name => do scan spec (← given.addFlag name) rest
      | .option name (some value) => do scan spec (← given.addOption name value) rest
      | .option name none =>
        match rest with
        | value :: rest =>
          if isDashed value then .error .usage
          else do scan spec (← given.addOption name value) rest
        | [] => .error .usage
      | .version => .error .version
      | .ending => do .ok ⟨← rest.foldlM (Given.addFile spec) given, none⟩
      | .positional => do scan spec (← given.addFile spec argument) rest
      | .unknown => .error .usage

end Spec

end TicketMarkup.CommandLine
