import LegibleLog.Config

/-!
# The command line

* `Flag` — the flags, with their names and the kinds of values they take;
* `Flags` — the values of flags; `Flags.apply` puts them over a configuration;
* `UsageFault` — what may be wrong with arguments;
* `Flags.ofArguments` — the flags that arguments give, and after them the environment.

A flag is settled when the next one comes or the arguments end, so that of two faults the earlier flag's is reported,
except that an argument which means nothing is reported at once.
-/

namespace LegibleLog

/-! ### Flags -/

/-- The flags. -/
inductive Flag where
  | config
  | skip
  | keep
  | sortLongest
  | skipUnchanged
  | truncate
  | truncateLength
  | color
  | lightBackground
  | timeFormat
  | messageKeys
  | timeKeys
  | levelKeys
  | ignoreInterrupts
  | help
  | version
deriving Repr, DecidableEq

/-- How a flag takes a value. -/
inductive FlagKind where
  /-- It needs one, which may be the next argument. -/
  | valued
  /-- It may have one after an equals sign. -/
  | switch
  /-- It takes none and ends the reading. -/
  | request
deriving Repr, DecidableEq

namespace Flag

/-- All flags. -/
def all : List Flag :=
  [config, skip, keep, sortLongest, skipUnchanged, truncate, truncateLength, color, lightBackground, timeFormat,
    messageKeys, timeKeys, levelKeys, ignoreInterrupts, help, version]

/-- The name of a flag. -/
def name : Flag → String
  | config => "config"
  | skip => "skip"
  | keep => "keep"
  | sortLongest => "sort-longest"
  | skipUnchanged => "skip-unchanged"
  | truncate => "truncate"
  | truncateLength => "truncate-length"
  | color => "color"
  | lightBackground => "light-bg"
  | timeFormat => "time-format"
  | messageKeys => "message-fields"
  | timeKeys => "time-fields"
  | levelKeys => "level-fields"
  | ignoreInterrupts => "ignore-interrupts"
  | help => "help"
  | version => "version"

/-- The letter of a flag, if it has one. -/
def letter? : Flag → Option Char
  | messageKeys => some 'm'
  | timeKeys => some 't'
  | levelKeys => some 'l'
  | ignoreInterrupts => some 'i'
  | help => some 'h'
  | version => some 'V'
  | _ => none

/-- How a flag takes a value. -/
def kind : Flag → FlagKind
  | sortLongest => .switch
  | skipUnchanged => .switch
  | truncate => .switch
  | lightBackground => .switch
  | ignoreInterrupts => .switch
  | help => .request
  | version => .request
  | _ => .valued

/-- The flag with a name. -/
def ofName? (name : String) : Option Flag := all.find? (·.name == name)

/-- The flag with a letter. -/
def ofLetter? (c : Char) : Option Flag := all.find? (·.letter? == some c)

end Flag

/-- The flags by their names, a line for each. -/
def Flag.usage : String :=
  "Reads structured logs from standard input and makes them readable.\n\nOptions:\n" ++
    String.join (Flag.all.map fun flag =>
      let letter := match flag.letter? with
        | some c => String.ofList ['-', c] ++ ", "
        | none => "    "
      "  " ++ letter ++ "--" ++ flag.name ++ "\n")

/-- What may be wrong with arguments, or ends their reading. -/
inductive UsageFault where
  | unknownArgument (argument : String)
  | missingValue (flag : Flag)
  | emptyPath (flag : Flag)
  | notBoolean (flag : Flag) (value : String)
  | notLength (flag : Flag) (value : String)
  | notColorMode (e : UnknownColorMode)
  | repeated (flag : Flag)
  | unwantedValue (flag : Flag) (value : String)
  | helpRequested
  | versionRequested
deriving Repr, DecidableEq

/-- The wording of a fault. -/
def UsageFault.message : UsageFault → String
  | unknownArgument argument => "unexpected argument '" ++ argument ++ "'"
  | missingValue flag => "a value is required for '--" ++ flag.name ++ "'"
  | emptyPath flag => "a path is required for '--" ++ flag.name ++ "'"
  | notBoolean flag value => "invalid value '" ++ value ++ "' for '--" ++ flag.name ++ "': true or false is possible"
  | notLength flag value => "invalid value '" ++ value ++ "' for '--" ++ flag.name ++ "': not a length"
  | notColorMode e => e.message
  | repeated flag => "the argument '--" ++ flag.name ++ "' cannot be used multiple times"
  | unwantedValue flag _ => "the argument '--" ++ flag.name ++ "' takes no value"
  | helpRequested => Flag.usage
  | versionRequested => "0.0.1"

/-- The values of flags. -/
structure Flags where
  config : Option String := none
  skip : List String := []
  keep : List String := []
  sortLongest : Option Bool := none
  skipUnchanged : Option Bool := none
  truncate : Option Bool := none
  truncateLength : Option Nat := none
  color : Option ColorMode := none
  lightBackground : Option Bool := none
  timeFormat : Option String := none
  messageKeys : List String := []
  timeKeys : List String := []
  levelKeys : List String := []
  ignoreInterrupts : Option Bool := none
deriving Repr, DecidableEq

/-! ### Values -/

/-- The pieces of a text between commas. -/
def splitCommas : List Char → List (List Char)
  | [] => [[]]
  | c :: r =>
    match splitCommas r with
    | piece :: pieces => if c = ',' then [] :: piece :: pieces else (c :: piece) :: pieces
    | [] => [[c]]

/-- The keys of a list with commas. -/
def keysOf (value : String) : List String := (splitCommas value.toList).map String.ofList

namespace Flag

/-- The value of a switch; without a value it is on. -/
def readSwitch (flag : Flag) : Option String → Except UsageFault Bool
  | none => .ok true
  | some "true" => .ok true
  | some "false" => .ok false
  | some value => .error (.notBoolean flag value)

/-- A length in decimal digits, below `2 ^ 64`; a plus sign may stand before it. -/
def readLength (flag : Flag) (value : String) : Except UsageFault Nat :=
  let ds := match value.toList with
    | '+' :: r => r
    | r => r
  let length := if !ds.isEmpty && ds.all Char.isDigit then natBelow? UInt64.size ds else none
  length.elim (.error (.notLength flag value)) .ok

/-- A path. -/
def readPath (flag : Flag) (value : String) : Except UsageFault String :=
  if value.isEmpty then .error (.emptyPath flag) else .ok value

/-- A flag that may be given once, by a value that `read` reads. -/
def once {α : Type} (flag : Flag) (before : Option α) (read : Except UsageFault α) : Except UsageFault (Option α) :=
  match before with
  | some _ => .error (.repeated flag)
  | none => read.map some

end Flag

namespace Flags

/-- The flags with one more, given with its value. -/
def addValued (fs : Flags) (flag : Flag) (value : String) : Except UsageFault Flags :=
  match flag with
  | .config => (flag.once fs.config (flag.readPath value)).map fun v => { fs with config := v }
  | .skip => .ok { fs with skip := fs.skip ++ keysOf value }
  | .keep => .ok { fs with keep := fs.keep ++ keysOf value }
  | .truncateLength =>
    (flag.once fs.truncateLength (flag.readLength value)).map fun v => { fs with truncateLength := v }
  | .color =>
    (flag.once fs.color ((ColorMode.ofWord value).mapError .notColorMode)).map fun v => { fs with color := v }
  | .timeFormat => (flag.once fs.timeFormat (.ok value)).map fun v => { fs with timeFormat := v }
  | .messageKeys => .ok { fs with messageKeys := fs.messageKeys ++ keysOf value }
  | .timeKeys => .ok { fs with timeKeys := fs.timeKeys ++ keysOf value }
  | .levelKeys => .ok { fs with levelKeys := fs.levelKeys ++ keysOf value }
  | _ => .ok fs

/-- The flags with one more switch, given with a value or without one. -/
def addSwitch (fs : Flags) (flag : Flag) (value : Option String) : Except UsageFault Flags :=
  match flag with
  | .sortLongest => (flag.once fs.sortLongest (flag.readSwitch value)).map fun v => { fs with sortLongest := v }
  | .skipUnchanged => (flag.once fs.skipUnchanged (flag.readSwitch value)).map fun v => { fs with skipUnchanged := v }
  | .truncate => (flag.once fs.truncate (flag.readSwitch value)).map fun v => { fs with truncate := v }
  | .lightBackground =>
    (flag.once fs.lightBackground (flag.readSwitch value)).map fun v => { fs with lightBackground := v }
  | .ignoreInterrupts =>
    (flag.once fs.ignoreInterrupts (flag.readSwitch value)).map fun v => { fs with ignoreInterrupts := v }
  | _ => .ok fs

/-- The flags with one more, given with a value or without one. -/
def add (fs : Flags) (flag : Flag) (value : Option String) : Except UsageFault Flags :=
  match flag.kind, value with
  | .valued, some v => fs.addValued flag v
  | .valued, none => .error (.missingValue flag)
  | .switch, value => fs.addSwitch flag value
  | .request, some v => .error (.unwantedValue flag v)
  | .request, none => .error (if flag = .version then .versionRequested else .helpRequested)

end Flags

/-! ### Arguments -/

/-- Arguments under reading: the settled flags, a flag that is not settled yet with the value it has so far, and
whether the arguments that follow are no flags any more. -/
structure ArgumentReader where
  flags : Flags := {}
  open? : Option (Flag × Option String) := none
  ended : Bool := false

namespace ArgumentReader

/-- Settles the flag that is open. -/
def settle (r : ArgumentReader) : Except UsageFault ArgumentReader :=
  match r.open? with
  | none => .ok r
  | some (flag, value) => (r.flags.add flag value).map fun fs => { r with flags := fs, open? := none }

/-- Settles the flag that is open, and then one more. -/
def give (r : ArgumentReader) (flag : Flag) (value : Option String) : Except UsageFault ArgumentReader := do
  let r ← r.settle
  return { r with flags := ← r.flags.add flag value }

/-- Opens a flag, the value of which is the next argument. -/
def await (r : ArgumentReader) (flag : Flag) : Except UsageFault ArgumentReader := do
  return { (← r.settle) with open? := some (flag, none) }

/-- A flag by its name, the two hyphens taken off. -/
def readNamed (r : ArgumentReader) (cs : List Char) : Except UsageFault ArgumentReader :=
  let name := String.ofList (cs.takeWhile (· != '='))
  match Flag.ofName? name, cs.dropWhile (· != '=') with
  | none, _ => .error (.unknownArgument name)
  | some flag, _ :: value =>
    if flag.kind = .request then .error (.unwantedValue flag (String.ofList value))
    else r.give flag (some (String.ofList value))
  | some flag, [] => if flag.kind = .valued then r.await flag else r.give flag none

/-- Flags by their letters, the hyphen taken off. What follows a letter may be its value, or further letters. -/
def readLetters (r : ArgumentReader) : List Char → Except UsageFault ArgumentReader
  | [] => .ok r
  | c :: cs =>
    match Flag.ofLetter? c with
    | none => .error (.unknownArgument (String.ofList ['-', c]))
    | some flag =>
      match flag.kind, cs with
      | .valued, [] => r.await flag
      | .valued, '=' :: value => r.give flag (some (String.ofList value))
      | .valued, value => r.give flag (some (String.ofList value))
      | .switch, '=' :: value => r.give flag (some (String.ofList value))
      | _, cs =>
        match r.give flag none with
        | .ok r => readLetters r cs
        | .error e => .error e

/-- An argument that is no flag: the value of the flag that waits for one. -/
def readPlain (r : ArgumentReader) (argument : String) : Except UsageFault ArgumentReader :=
  match r.open? with
  | some (flag, none) => .ok { r with open? := some (flag, some argument) }
  | _ => .error (.unknownArgument argument)

/-- The reader after one more argument. -/
def read (r : ArgumentReader) (argument : String) : Except UsageFault ArgumentReader :=
  if r.ended then .error (.unknownArgument argument)
  else
    match argument.toList with
    | ['-', '-'] => .ok { r with ended := true }
    | '-' :: '-' :: cs => r.readNamed cs
    | '-' :: c :: cs => r.readLetters (c :: cs)
    | _ => r.readPlain argument

end ArgumentReader

/-- What the environment says. -/
structure Environment where
  configFile : Option String := none
  messageKeys : Option String := none
  timeKeys : Option String := none
  levelKeys : Option String := none
  noColor : Option String := none
deriving Repr, DecidableEq

/-- The environment, given its variables. -/
def Environment.ofVariables (lookup : String → Option String) : Environment where
  configFile := lookup "PRETTYLOG_CONFIG_FILE"
  messageKeys := lookup "PRETTYLOG_MESSAGE_FIELDS"
  timeKeys := lookup "PRETTYLOG_TIME_FIELDS"
  levelKeys := lookup "PRETTYLOG_LEVEL_FIELDS"
  noColor := lookup "NO_COLOR"

namespace Flags

/-- Keys from arguments, or else from a variable. -/
def orKeys (keys : List String) (fallback : Option String) : List String :=
  if keys.isEmpty then (fallback.map keysOf).getD [] else keys

/-- The flags, with lists of keys from the environment where no argument gives them. -/
def withEnvironment (fs : Flags) (env : Environment) : Flags :=
  { fs with
    messageKeys := orKeys fs.messageKeys env.messageKeys
    timeKeys := orKeys fs.timeKeys env.timeKeys
    levelKeys := orKeys fs.levelKeys env.levelKeys }

/-- The flags that arguments and environment give. -/
def ofArguments (env : Environment) (arguments : List String) : Except UsageFault Flags := do
  let reader ← arguments.foldlM ArgumentReader.read {}
  return (← reader.settle).flags.withEnvironment env

/-- A list that is given, or else the usual one. -/
def orUsual (given usual : List String) : List String := if given.isEmpty then usual else given

/-- A configuration with the flags over it: a flag that is given counts, and the configuration elsewhere. -/
def apply (fs : Flags) (c : Config) : Config :=
  { c with
    skip := orUsual fs.skip c.skip
    keep := orUsual fs.keep c.keep
    sortLongest := fs.sortLongest.getD c.sortLongest
    skipUnchanged := fs.skipUnchanged.getD c.skipUnchanged
    truncate := fs.truncate.getD c.truncate
    truncateLength := fs.truncateLength.getD c.truncateLength
    colorMode := (fs.color.map ColorMode.name).getD c.colorMode
    lightBackground := fs.lightBackground.getD c.lightBackground
    timeFormat := fs.timeFormat.getD c.timeFormat
    messageKeys := orUsual fs.messageKeys c.messageKeys
    timeKeys := orUsual fs.timeKeys c.timeKeys
    levelKeys := orUsual fs.levelKeys c.levelKeys
    ignoreInterrupts := fs.ignoreInterrupts.getD c.ignoreInterrupts }

end Flags

end LegibleLog
