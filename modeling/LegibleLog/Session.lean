import LegibleLog.CommandLine
import LegibleLog.Config.Document
import LegibleLog.Stream

/-!
# Sessions

* `Failure` — why a session ends early, with its wording in `Failure.message`;
* `ConfigSource` — where the configuration is; `ConfigSource.locate` finds it, `Config.load` reads it;
* `Session.start` — the options of a session, from flags, environment and configuration file;
* `runProgram` — a whole session: how it ends, and what it writes.
-/

namespace LegibleLog

/-! ### Failures -/

/-- The kinds of failures of input and output. -/
inductive IoKind where
  | notFound
  | invalidData
  | brokenPipe
  | other
deriving Repr, DecidableEq

/-- A failure of input or output. -/
structure IoFailure where
  kind : IoKind
  text : String
deriving Repr, DecidableEq

/-- Why a session ends early. -/
inductive Failure where
  | io (e : IoFailure)
  | configUnread (path : String) (e : IoFailure)
  | configMalformed (path : String)
  | configInvalid (fault : ConfigFault)
deriving Repr, DecidableEq

/-- The wording of a failure. -/
def Failure.message : Failure → String
  | io e => "I/O error: " ++ e.text
  | configUnread path e => "Failed to read config file " ++ path ++ ": " ++ e.text
  | configMalformed path => "Failed to parse config file " ++ path ++ ": "
  | configInvalid fault => "Invalid configuration: " ++ fault.message

/-! ### The configuration file -/

/-- Where the configuration is. -/
inductive ConfigSource where
  /-- In a file that must exist. -/
  | named (path : String)
  /-- In a file that need not be there. -/
  | personal (path : String)
  /-- Nowhere. -/
  | nowhere
deriving Repr, DecidableEq

/-- The file of a user's own configuration, within the directory for such files. -/
def personalFile : String := "prettylog/config.toml"

/-- Where the configuration is: in the file of the flag, or else of the environment, or else in the user's own. -/
def ConfigSource.locate (flag : Option String) (env : Environment) (directory : Option String) : ConfigSource :=
  match flag, env.configFile.filter (! ·.isEmpty), directory with
  | some path, _, _ => named path
  | none, some path, _ => named path
  | none, none, some directory => personal (directory ++ "/" ++ personalFile)
  | none, none, none => nowhere

/-- Reads files: the bytes of a path, or why they cannot be had. -/
abbrev ReadFile := String → Except IoFailure (List UInt8)

/-- Looks for files: whether anything is seen at a path. Where one may not look nothing is seen, whatever is there. -/
abbrev SeesFile := String → Bool

/-- Unless more is known, a file is seen when reading it does not say that it is not there. -/
def ReadFile.sees (file : ReadFile) (path : String) : Bool :=
  match file path with
  | .error ⟨.notFound, _⟩ => false
  | _ => true

namespace Config

/-- The configuration in the bytes of a file. -/
def ofFile (path : String) : Except IoFailure (List UInt8) → Except Failure Config
  | .error e => .error (.configUnread path e)
  | .ok bytes =>
    match Text.decode? bytes with
    | none => .error (.configUnread path ⟨.invalidData, ""⟩)
    | some s =>
      match ofToml? s.toList with
      | some c => .ok c
      | none => .error (.configMalformed path)

/-- The configuration of a source before it is validated; a file of the user's own that is not seen says nothing. -/
def read (file : ReadFile) (source : ConfigSource) (sees : SeesFile := file.sees) : Except Failure Config :=
  match source with
  | .named path => ofFile path (file path)
  | .personal path => if sees path then ofFile path (file path) else .ok {}
  | .nowhere => .ok {}

/-- The configuration of a source. -/
def load (file : ReadFile) (source : ConfigSource) (sees : SeesFile := file.sees) : Except Failure Config := do
  let c ← read file source sees
  c.validate.mapError .configInvalid
  return c

end Config

/-! ### Sessions -/

/-- What a session finds around it. -/
structure Surroundings where
  environment : Environment := {}
  /-- The directory for the user's own configurations. -/
  directory : Option String := none
  file : ReadFile
  sees : SeesFile := file.sees
  /-- The output is a terminal. -/
  terminal : Bool := false
  year : Int := 2025

/-- A session that may begin. -/
structure Session where
  options : Options
  ignoreInterrupts : Bool

namespace Session

/-- The user wants no colors. -/
def noColor (env : Environment) : Bool := env.noColor.any (! ·.isEmpty)

/-- Settles all options. The configuration must be valid alone, and with the flags over it. -/
def start (around : Surroundings) (flags : Flags) : Except Failure Session := do
  let source := ConfigSource.locate flags.config around.environment around.directory
  let c ← Config.load around.file source around.sees
  let c := flags.apply c
  c.validate.mapError .configInvalid
  let color ← c.color.mapError .configInvalid
  let options ← (c.options (color.settle around.terminal (noColor around.environment)) around.year).mapError .configInvalid
  return ⟨options, c.ignoreInterrupts⟩

/-- The failure that a stream ended in, unless it is that nobody reads its output any more. -/
def failureOf (e : Option IoFailure) : Option Failure :=
  match e with
  | some e => if e.kind = .brokenPipe then none else some (.io e)
  | none => none

end Session

/-- How a program ends. -/
inductive Ending where
  | done
  | usage (fault : UsageFault)
  | failed (failure : Failure)
deriving Repr, DecidableEq

/-- The number that a program ends with. -/
def Ending.code : Ending → Nat
  | done => 0
  | usage .helpRequested => 0
  | usage .versionRequested => 0
  | usage _ => 2
  | failed _ => 1

/-- A whole session: how it ends, and what it writes. -/
def runProgram (around : Surroundings) (arguments : List String) (source : Source IoFailure) (sink : Sink IoFailure) :
    Ending × List UInt8 :=
  match Flags.ofArguments around.environment arguments with
  | .error fault => (.usage fault, [])
  | .ok flags =>
    match Session.start around flags with
    | .error failure => (.failed failure, [])
    | .ok session =>
      let outcome := runStream session.options {} source sink
      match Session.failureOf outcome.failure with
      | some failure => (.failed failure, outcome.output)
      | none => (.done, outcome.output)

end LegibleLog
