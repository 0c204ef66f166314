import TicketMarkup.CommandLine.Run

/-!
# The program

Reads the command line, the environment and the source of the command, prints what the command
gives, and ends with the exit code: 0 for success, 1 for a failure, 2 for a wrong command line.
-/

open TicketMarkup.CommandLine

namespace TicketMarkup.Program

/-- The cause of a failure to read. -/
def readErrorOf : IO.Error → ReadError
  | .noFileOrDirectory _ _ _ => .missing
  | .inappropriateType _ _ _ => .directory
  | e => .other (toString e).toList

/-- Reads standard input to its end. -/
partial def readAll (input : IO.FS.Stream) (read : ByteArray) : IO ByteArray := do
  let chunk ← input.read 65536
  if chunk.isEmpty then return read
  readAll input (read ++ chunk)

/-- Reads a source. -/
def readSource : Source → IO (Except ReadError Text)
  | .standardInput => do return decodeUtf8 (← readAll (← IO.getStdin) ByteArray.empty)
  | .file path => do
    try
      return decodeUtf8 (← IO.FS.readBinFile (String.ofList path))
    catch e => return .error (readErrorOf e)

/-- The variables that the program looks at, as far as they are set. -/
def readEnvironment : IO Environment := do
  let names := ["JIRAFMT_VERBOSE", "JIRAFMT_TARGET", "JIRA_API_VERSION", "JIRA_PROJECT"]
  let values ← names.mapM fun name => do return (name, ← IO.getEnv name)
  return fun name => ((values.lookup name).join).map String.toList

/-- Runs a command and gives its exit code. -/
def runInvocation (invocation : Invocation) : IO UInt32 := do
  let command := invocation.command
  if invocation.verbose then IO.eprint (String.ofList command.banner)
  let input ← match command.source? with
    | some source => readSource source
    | none => pure (.ok [])
  match command.run fun _ => input with
  | .ok text =>
    IO.print (String.ofList text)
    return 0
  | .error failure =>
    IO.eprintln ("Error: " ++ String.ofList failure.message)
    return 1

end TicketMarkup.Program

/-- Runs the program and gives its exit code. -/
def main (arguments : List String) : IO UInt32 := do
  match parse (← TicketMarkup.Program.readEnvironment) (arguments.map String.toList) with
  | .ok invocation => TicketMarkup.Program.runInvocation invocation
  | .error .version =>
    IO.print (String.ofList versionLine)
    return 0
  | .error .usage =>
    IO.eprintln "usage: jirafmt [--verbose] md|jira COMMAND [OPTIONS] [FILE]"
    return 2
