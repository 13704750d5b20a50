/-!
# Arguments

What a command line asks for. Options go before the name of a command, and each command has options
of its own, which may stand anywhere behind its name. `--` ends the options.
-/
namespace LangId.CommandLine

/-- What is wrong with a command line. -/
inductive UsageError where
  | unknownOption (name : String)
  | unwantedValue (name : String)
  | missingValue (name : String)
  | missingArgument
  | extraArgument (argument : String)
  | missingCommand
  | unknownCommand (name : String)
  | badPath (path : String)
  deriving Repr, DecidableEq

/-- What a message says. -/
def UsageError.message : UsageError → String
  | unknownOption name => s!"No such option: {name}"
  | unwantedValue name => s!"Option {name} does not take a value."
  | missingValue name => s!"Option {name} requires an argument."
  | missingArgument => "Missing argument."
  | extraArgument argument => s!"Got unexpected extra argument ({argument})"
  | missingCommand => "Missing command."
  | unknownCommand name => s!"No such command: {name}"
  | badPath path => s!"Invalid value: {path}"

/-- An option: the name that it is found under, and the ways to write it. -/
structure Switch where
  key : String
  spellings : List String
  takesValue : Bool := false
  deriving Repr, DecidableEq

/-- Options that have been found, with their values. -/
abbrev Found := List (String × String)

/-- Whether an option has been found. -/
def Found.has (f : Found) (key : String) : Bool := f.any (·.1 == key)

/-- The value of an option; of several the last one counts. -/
def Found.value? (f : Found) (key : String) : Option String :=
  (f.reverse.find? (·.1 == key)).map (·.2)

/-- What an argument that begins with a dash says. -/
inductive Reading where
  | given (found : Found)
  /-- The value of the last option is due in the next argument. -/
  | wants (found : Found) (key : String)
  | refused (e : UsageError)

/-- The option of a spelling. -/
def switchOf? (switches : List Switch) (spelling : String) : Option Switch :=
  switches.find? (·.spellings.contains spelling)

/-- Reads an option that begins with two dashes. A value may stand behind an equals sign. -/
def readLong (switches : List Switch) (argument : List Char) : Reading :=
  let name := String.ofList (argument.takeWhile (· != '='))
  let value := argument.dropWhile (· != '=')
  match switchOf? switches name with
  | none => .refused (.unknownOption name)
  | some s =>
    match s.takesValue, value with
    | true, [] => .wants [] s.key
    | true, _ :: value => .given [(s.key, String.ofList value)]
    | false, [] => .given [(s.key, "")]
    | false, _ => .refused (.unwantedValue name)

/-- Reads letters behind a single dash. Behind one that takes a value stands the value. -/
def readShort (switches : List Switch) (found : Found) : List Char → Reading
  | [] => .given found
  | c :: rest =>
    let name := String.ofList ['-', c]
    match switchOf? switches name with
    | none => .refused (.unknownOption name)
    | some s =>
      if s.takesValue then
        if rest.isEmpty then .wants found s.key
        else .given (found ++ [(s.key, String.ofList rest)])
      else readShort switches (found ++ [(s.key, "")]) rest

/-- Reads an argument that begins with a dash. -/
def readSwitch (switches : List Switch) (argument : String) : Reading :=
  match argument.toList with
  | '-' :: '-' :: rest => readLong switches ('-' :: '-' :: rest)
  | _ :: rest => readShort switches [] rest
  | [] => .given []

/-- Whether an argument is an option. A single dash is none. -/
def isSwitch (argument : String) : Bool :=
  match argument.toList with
  | '-' :: _ :: _ => true
  | _ => false

/-- Separates options and other arguments. If they may not be mixed, the first argument ends the
options. -/
def separate (switches : List Switch) (mixed : Bool) :
    List String → Except UsageError (Found × List String)
  | [] => .ok ([], [])
  | argument :: rest =>
    if argument == "--" then .ok ([], rest)
    else if isSwitch argument then
      match readSwitch switches argument with
      | .refused e => .error e
      | .given found => do
        let (more, others) ← separate switches mixed rest
        return (found ++ more, others)
      | .wants found key =>
        match rest with
        | [] => .error (.missingValue argument)
        | value :: rest => do
          let (more, others) ← separate switches mixed rest
          return (found ++ (key, value) :: more, others)
    else if mixed then do
      let (more, others) ← separate switches mixed rest
      return (more, argument :: others)
    else .ok ([], argument :: rest)

/-- What is to be done. -/
inductive Command where
  | help
  | identify (paths : List String) (json : Bool)
  | vendored (paths : List String)
  | stats (directory : String) (json files : Bool)
  deriving Repr, DecidableEq

/-- The option that asks for help. -/
def helpSwitch : Switch := { key := "help", spellings := ["--help"] }

/-- The option for output as JSON. -/
def jsonSwitch : Switch := { key := "json", spellings := ["--json"] }

/-- The option for output on single files. -/
def filesSwitch : Switch := { key := "files", spellings := ["--files"] }

/-- The options in front of a command. -/
def globalSwitches : List Switch := [
  { key := "config", spellings := ["--config", "-c"], takesValue := true },
  { key := "version", spellings := ["--version"] },
  helpSwitch]

/-- Separates the options of a command from its arguments, and makes the command of them unless help
is asked for. -/
def commandOf (switches : List Switch) (arguments : List String)
    (make : Found → List String → Except UsageError Command) : Except UsageError Command := do
  let (found, others) ← separate (helpSwitch :: switches) true arguments
  if found.has "help" then return .help
  make found others

/-- Reads a command. -/
def Command.parse (name : String) (arguments : List String) : Except UsageError Command :=
  if name == "identify" then
    commandOf [jsonSwitch] arguments fun found paths =>
      if paths.isEmpty then .error .missingArgument else .ok (.identify paths (found.has "json"))
  else if name == "vendored" then
    commandOf [] arguments fun _ paths =>
      if paths.isEmpty then .error .missingArgument else .ok (.vendored paths)
  else if name == "stats" then
    commandOf [jsonSwitch, filesSwitch] arguments fun found others =>
      match others with
      | [] => .error .missingArgument
      | [directory] => .ok (.stats directory (found.has "json") (found.has "files"))
      | _ :: extra :: _ => .error (.extraArgument extra)
  else .error (.unknownCommand name)

/-- What a command line asks for. What is wrong behind the name of the command counts only after
the options before it have been heeded. -/
inductive Request where
  | help
  | version
  | run (config : Option String) (command : Except UsageError Command)

/-- Reads a command line. -/
def Request.parse (arguments : List String) : Except UsageError Request := do
  if arguments.isEmpty then throw .missingCommand
  let (found, others) ← separate globalSwitches false arguments
  match found.find? fun f => f.1 == "help" || f.1 == "version" with
  | some ("help", _) => return .help
  | some _ => return .version
  | none =>
    let config := found.value? "config"
    match others with
    | [] => return .run config (.error .missingCommand)
    | name :: rest => return .run config (Command.parse name rest)

end LangId.CommandLine
