import LegibleLog.Session
import Std.Time.DateTime.Timestamp

/-!
# The program

`main` settles the options from arguments, environment and configuration file, and then renders standard input onto
standard output, line by line.
-/

namespace LegibleLog.Program

/-- The environment variables that matter. -/
def readEnvironment : IO Environment := do
  let names := ["PRETTYLOG_CONFIG_FILE", "PRETTYLOG_MESSAGE_FIELDS", "PRETTYLOG_TIME_FIELDS", "PRETTYLOG_LEVEL_FIELDS",
    "NO_COLOR"]
  let values ← names.mapM fun name => return (name, ← IO.getEnv name)
  return Environment.ofVariables fun name => (values.lookup name).join

/-- The directory for the user's own configurations. -/
def readDirectory : IO (Option String) := do
  match ← IO.getEnv "XDG_CONFIG_HOME" with
  | some path => if path.startsWith "/" then return some path
  | none => pure ()
  return (← IO.getEnv "HOME").map (· ++ "/.config")

/-- A failure as the library knows it. -/
def failureOf (e : IO.Error) : IoFailure :=
  match e with
  | .noFileOrDirectory .. => ⟨.notFound, toString e⟩
  | .resourceVanished .. => ⟨.brokenPipe, toString e⟩
  | e => ⟨.other, toString e⟩

/-- Whether anything is seen at a path. -/
def seesPath (path : String) : IO Bool := do
  try
    let _ ← IO.FS.realPath path
    return true
  catch _ =>
    return false

/-- The bytes of a path, or why they cannot be had. -/
def readPath (path : String) : IO (Except IoFailure (List UInt8)) := do
  try
    return .ok (← IO.FS.readBinFile path).toList
  catch e =>
    return .error (failureOf e)

/-- What the file of a source is found to be: whether it is seen, and its bytes. A file of the user's own that is not
seen is not read. -/
def readSource (source : ConfigSource) : IO (Bool × Except IoFailure (List UInt8)) := do
  match source with
  | .named path => return (true, ← readPath path)
  | .personal path => if ← seesPath path then return (true, ← readPath path)
  | .nowhere => pure ()
  return (false, .error ⟨.notFound, ""⟩)

/-- The year of the clock. -/
def readYear : IO Int := do
  let now ← Std.Time.Timestamp.now
  return (Time.Timestamp.dateAt now.toSecondsSinceUnixEpoch.val).year

/-- Renders lines one after the other. -/
def writeAll (o : Options) (output : IO.FS.Stream) (s : StreamState) : List (List UInt8) → IO StreamState
  | [] => return s
  | line :: rest => do
    let (out, s) := s.step o (chomp line)
    output.write ⟨out.toArray⟩
    writeAll o output s rest

/-- Renders what comes in until it ends; `rest` is the beginning of a line whose end has not come yet. -/
partial def pump (o : Options) (input output : IO.FS.Stream) (s : StreamState) (rest : List UInt8) : IO Unit := do
  let chunk ← input.read 65536
  if chunk.isEmpty then
    let _ ← writeAll o output s (if rest.isEmpty then [] else [rest])
    output.flush
  else
    let (ended, rest) := pieces (rest ++ chunk.toList)
    let s ← writeAll o output s ended
    output.flush
    pump o input output s rest

/-- Renders standard input onto standard output. -/
def run (session : Session) : IO Ending := do
  try
    pump session.options (← IO.getStdin) (← IO.getStdout) {} []
    return .done
  catch e =>
    match Session.failureOf (some (failureOf e)) with
    | some failure => return .failed failure
    | none => return .done

/-- Writes what there is to say about an ending. -/
def report (ending : Ending) : IO Unit := do
  match ending with
  | .done => pure ()
  | .usage fault => if ending.code = 0 then IO.println fault.message else IO.eprintln ("error: " ++ fault.message)
  | .failed failure => IO.eprintln ("Error: " ++ failure.message)

/-- A whole session. -/
def start (arguments : List String) : IO Ending := do
  let environment ← readEnvironment
  match Flags.ofArguments environment arguments with
  | .error fault => return .usage fault
  | .ok flags =>
    let directory ← readDirectory
    let (seen, content) ← readSource (ConfigSource.locate flags.config environment directory)
    let around : Surroundings := {
      environment, directory, file := fun _ => content, sees := fun _ => seen, terminal := ← (← IO.getStdout).isTty,
      year := ← readYear }
    match Session.start around flags with
    | .error failure => return .failed failure
    | .ok session => run session

end LegibleLog.Program

def main (arguments : List String) : IO UInt32 := do
  let ending ← LegibleLog.Program.start arguments
  LegibleLog.Program.report ending
  return ending.code.toUInt32
