import LangId.CommandLine.Arguments
import LangId.CommandLine.Output
import LangId.Config.Load
import LangId.Identifier
import LangId.Knowledge.Source
import LangId.Scan

/-!
# Running a command line

What a command line writes and the code that it exits with, given the directory tree and the
variables around it. Wrong usage exits with 2. Settings and definitions that are refused are
reported and exit with 1, as do files that cannot be read; whatever else goes wrong breaks off.
-/
namespace LangId.CommandLine

/-- What a command line is run in. -/
structure Surroundings where
  tree : Tree
  /-- The directory that relative paths begin at. -/
  here : Path
  home : Path
  environment : Environment.Variables
  /-- The homes of users. -/
  homes : Settings.Homes := []

/-- Why a command breaks off. -/
inductive Crash where
  | settings (r : Settings.Refusal)
  | settingsFile (e : Settings.LoadError)
  | definitions (e : Payload.LoadError)
  | identifier (e : Identifier.Error)
  | scan (e : Scanner.Error)
  | walk (f : Tree.Fault)
  /-- The file for events cannot be written to. -/
  | log (f : Tree.Fault)
  | unreadable (e : Unreadable)
  | score (e : ScoreError)
  /-- A report without bytes has no share for a language. -/
  | noShare (language : String)
  deriving Repr

/-- What a command leaves behind. -/
structure Result where
  exit : Nat := 0
  lines : List String := []
  /-- Lines on files that cannot be read. -/
  complaints : List String := []
  crash : Option Crash := none
  /-- What is reported about wrong usage, settings or definitions. -/
  message : Option String := none

/-- Why a command does not begin. -/
inductive Failure where
  | usage (e : UsageError)
  | reported (message : String)
  | crash (c : Crash)

/-- The result of a command that does not begin. -/
def Failure.result : Failure → Result
  | usage e => { exit := 2, message := some e.message }
  | reported message => { exit := 1, message := some message }
  | crash c => { exit := 1, crash := some c }

variable (s : Surroundings)

/-- The way that a path leads from the top of the tree. -/
def Surroundings.way (path : Path) : List String := (s.here.join path).parts

/-- Whether the text of a path says that it leads to a directory. -/
def endsInSlash (path : String) : Bool :=
  match path.toList.reverse with
  | '/' :: _ => true
  | '.' :: '/' :: _ => true
  | _ => false

/-- What the text of a path leads to. -/
def Surroundings.target? (path : String) : Option Tree :=
  if path.isEmpty then none
  else
    match s.tree.find (s.way (Path.ofString path)) with
    | .ok (.directory entries) => some (.directory entries)
    | .ok t => if endsInSlash path then none else some t
    | .error _ => none

/-- How the text of a directory is looked up. -/
def Surroundings.locator : Locator := Settings.locatorIn s.tree s.homes s.home s.here

/-- Whether an error in a file with settings is one that is reported. -/
def isReportedSettings : Settings.LoadError → Bool
  | .malformed _ | .notMap _ | .refused _ (.invalid _) => true
  | _ => false

/-- Whether an error in definitions is one that is reported. -/
def isReportedDefinitions : Payload.LoadError → Bool
  | .undecodable | .malformed _ _ | .noSuchValue _ | .badShape _ | .build (.definition _) => true
  | _ => false

/-- Checks the path of a file with settings. -/
def Surroundings.checkConfig : Option String → Except Failure Unit
  | none => .ok ()
  | some path =>
    match s.target? path with
    | some (.file _) => .ok ()
    | _ => .error (.usage (.badPath path))

/-- Loads the settings. -/
def Surroundings.settings : Option String → Except Failure Settings
  | none => (Settings.read s.locator s.environment []).mapError fun r => .crash (.settings r)
  | some text =>
    let path := Path.ofString text
    (Settings.load s.tree s.locator s.environment (s.way path) path.toString).mapError fun e =>
      if isReportedSettings e then .reported e.message else .crash (.settingsFile e)

/-- Surroundings in which the file for events is there, as it is once the settings are in force. -/
def Surroundings.withLog (settings : LoggingSettings) : Except Failure Surroundings :=
  match settings.file with
  | none => .ok s
  | some file =>
    let way := s.way (Path.ofString file)
    match s.tree.find way, s.tree.resolve way with
    | .ok (.file _), _ => .ok s
    | .ok _, _ => .error (.crash (.log .isDirectory))
    | .error .missing, .ok place => .ok { s with tree := s.tree.insert place (.file []) }
    | .error f, _ => .error (.crash (.log f))

/-- Puts an identifier together. -/
def Surroundings.identifier (settings : Settings) : Except Failure Identifier := do
  let kb ← (settings.knowledge s.tree).mapError fun e =>
    if isReportedDefinitions e then .reported e.message else .crash (.definitions e)
  (Identifier.make kb settings).mapError fun e => .crash (.identifier e)

/-- Identifies files one after the other, until one breaks off. -/
def Surroundings.identifyAll (i : Identifier) :
    List Path → List (Path × Except Tree.Fault Identification) × Option ScoreError
  | [] => ([], none)
  | path :: rest =>
    match s.tree.read (s.way path) with
    | .error f =>
      let (found, stopped) := identifyAll i rest
      ((path, .error f) :: found, stopped)
    | .ok bytes =>
      match i.identify path.toString (bytes.take i.settings.sampling.maxBytes) with
      | .error e => ([], some e)
      | .ok r =>
        let (found, stopped) := identifyAll i rest
        ((path, .ok r) :: found, stopped)

/-- Identifies files. -/
def Surroundings.identify (i : Identifier) (paths : List String) (json : Bool) : Result :=
  let (found, stopped) := s.identifyAll i (paths.map Path.ofString)
  let results := found.filterMap fun (_, r) => r.toOption
  let complaints := found.filterMap fun (path, r) =>
    match r with
    | .error f => some (complaint path f)
    | .ok _ => none
  let lines :=
    if json then if stopped.isSome then [] else [identificationsJson results]
    else results.map identificationLine
  { exit := if stopped.isSome || !complaints.isEmpty then 1 else 0, lines, complaints,
    crash := stopped.map .score }

/-- Checks paths against the rules on what is kept out. -/
def vendoredResult (i : Identifier) (paths : List String) : Result :=
  { lines := paths.map fun path => exclusionLine path (i.filter.excludedAs path) }

/-- Shows a report as lines of text. -/
def reportResult (r : Report) (files : Bool) : Result :=
  let rest := remainderLines r ++ if files then fileLines r else []
  if r.languages.isEmpty then { lines := "No languages detected." :: rest }
  else
    match r.shares with
    | .error e => { exit := 1, crash := some (.score e) }
    | .ok shares =>
      match languageLines shares r.ranked with
      | (lines, none) => { lines := languageHeading ++ lines ++ rest }
      | (lines, some name) =>
        { exit := 1, lines := languageHeading ++ lines, crash := some (.noShare name) }

/-- The report on the files below a directory. -/
def Surroundings.report (i : Identifier) (directory : String) : Except Crash Report := do
  let settings := i.settings
  let scanner ← (Scanner.ofTree s.tree (s.way (Path.ofString directory))
    settings.filter.respectGitignore).mapError .scan
  let paths ← (scanner.paths s.tree).mapError .walk
  let root : Path := ⟨.absolute, scanner.root⟩
  match i.analyze paths (Provider.ofTree s.tree root settings.sampling.maxBytes) with
  | .ok r => return r
  | .error (.unreadable e) => throw (.unreadable e)
  | .error (.score e) => throw (.score e)

/-- Shows statistics on the files below a directory. -/
def Surroundings.stats (i : Identifier) (directory : String) (json files : Bool) : Result :=
  match s.report i directory with
  | .error c => { exit := 1, crash := some c }
  | .ok r => if json then { lines := [reportJson r] } else reportResult r files

/-- Whether the arguments of a command name what they have to name. -/
def Surroundings.checkCommand : Command → Except Failure Unit
  | .stats directory _ _ =>
    match s.target? directory with
    | some (.directory _) => .ok ()
    | _ => .error (.usage (.badPath directory))
  | _ => .ok ()

/-- The settings under which a command is run. -/
def settingsFor (settings : Settings) : Command → Settings
  | .stats _ _ true => { settings with analysis := { settings.analysis with includeFiles := true } }
  | _ => settings

/-- Performs a command. -/
def Surroundings.perform (config : Option String) (command : Command) : Except Failure Result := do
  s.checkCommand command
  let settings ← s.settings config
  let s ← s.withLog settings.logging
  let i ← s.identifier (settingsFor settings command)
  match command with
  | .help => return {}
  | .identify paths json => return s.identify i paths json
  | .vendored paths => return vendoredResult i paths
  | .stats directory json files => return s.stats i directory json files

/-- Does what is asked for. -/
def Surroundings.answer : Request → Except Failure Result
  | .help | .version => .ok {}
  | .run config command => do
    s.checkConfig config
    match command with
    | .error e => throw (.usage e)
    | .ok .help => return {}
    | .ok command => s.perform config command

/-- Runs a command line. -/
def run (arguments : List String) : Result :=
  match Request.parse arguments with
  | .error e => (Failure.usage e).result
  | .ok request =>
    match s.answer request with
    | .ok r => r
    | .error f => f.result

end LangId.CommandLine
