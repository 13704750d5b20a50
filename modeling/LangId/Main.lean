import LangId.CommandLine.Run

/-!
# The program

The outer layer: it copies what a command line can look at out of the file system into a directory
tree, runs the command line on it, and writes what comes of it.
-/
namespace LangId.Program

open CommandLine

/-- The entry of the file system at a place. -/
def entryAt (place : Tree.Place) : IO.FS.DirEntry :=
  { root := Tree.placeText place.dropLast, fileName := place.getLastD "." }

/-- The kind of what stands at a place; absent if nothing does. -/
def kindAt? (place : Tree.Place) : IO (Option IO.FS.FileType) := do
  try
    return some (← (entryAt place).path.symlinkMetadata).type
  catch _ => return none

/-- The place that a link leads to; the link itself if that cannot be told. -/
def targetOf (place : Tree.Place) : IO Tree.Place := do
  try
    return (Path.ofString (← IO.FS.realPath (entryAt place).path).toString).parts
  catch _ => return place

/-- Copies what stands at a place. What lies in directories of version control is left out. -/
partial def copy (place : Tree.Place) : IO Tree := do
  match ← kindAt? place with
  | some .dir =>
    if Gitignore.metadataNames.contains (place.getLastD "") then return .empty
    let found ← (← (entryAt place).path.readDir).toList.mapM fun e => do
      return (e.fileName, ← copy (place ++ [e.fileName]))
    return .directory found
  | some .symlink => return .link (Tree.placeText (← targetOf place))
  | some _ =>
    try
      return .file (← IO.FS.readBinFile (entryAt place).path).toList
    catch _ => return .file []
  | none => return .empty

/-- Goes a way from a place, copies the links on it, and tells where it leads, if it leads
anywhere. -/
def follow (t : Tree) (here : Tree.Place) : List String → IO (Tree × Option Tree.Place)
  | [] => return (t, some here)
  | ".." :: rest => follow t here.dropLast rest
  | name :: rest => do
    let place := here ++ [name]
    match ← kindAt? place with
    | none => return (t, none)
    | some .symlink =>
      let target ← targetOf place
      follow (t.insert place (.link (Tree.placeText target))) target rest
    | some .dir => follow (t.insert place .empty) place rest
    | some _ => follow t place rest

/-- Copies the marks of version control in the directories above a place. -/
def copyMarks (t : Tree) (place : Tree.Place) : IO Tree :=
  (Gitignore.Filter.upwards place).foldlM (fun t p => do
    let isMarked ← (entryAt (p ++ [".git"])).path.pathExists
    let t := if isMarked then t.insert (p ++ [".git"]) .empty else t
    if ← (entryAt (p ++ [".gitignore"])).path.pathExists then
      return t.insert (p ++ [".gitignore"]) (← copy (p ++ [".gitignore"]))
    return t) t

/-- Copies what a way leads to, and the marks of version control above it. -/
def copyWay (t : Tree) (way : List String) : IO Tree := do
  let (t, place) ← follow t [] way
  match place with
  | none => return t
  | some place =>
    let t ← copyMarks t place
    return t.insert place (← copy place)

/-- The texts of the paths that a request looks at. -/
def pathsOf : Request → List String
  | .run config command =>
    let named := match command with
      | .ok (.identify paths _) => paths
      | .ok (.stats directory _ _) => [directory]
      | _ => []
    config.toList ++ named
  | _ => []

/-- The variables of the environment. -/
def readEnvironment : IO Environment.Variables := do
  try
    let text := Text.Utf8.decodeLossy (← IO.FS.readBinFile "/proc/self/environ").toList
    return (Text.splitOn '\x00' text).map fun entry =>
      (String.ofList (Text.upTo '=' entry), String.ofList (Text.behind '=' entry))
  catch _ => return []

/-- The homes of users. -/
def readHomes : IO Settings.Homes := do
  try
    let text := Text.Utf8.decodeLossy (← IO.FS.readBinFile "/etc/passwd").toList
    return (Text.splitOn '\n' text).map fun entry =>
      let fields := (Text.splitOn ':' entry).map String.ofList
      (fields.headD "", Path.ofString (fields.getD 5 ""))
  catch _ => return []

/-- Copies what a command line looks at. -/
def surroundings (arguments : List String) : IO Surroundings := do
  let here := Path.ofString (← IO.currentDir).toString
  let environment ← readEnvironment
  let home := Path.ofString ((environment.lookup "HOME").getD "/")
  let named := match Request.parse arguments with
    | .ok r => pathsOf r
    | .error _ => []
  let tree ← named.foldlM (fun t p => copyWay t (here.join (Path.ofString p)).parts) Tree.empty
  let s : Surroundings := { tree, here, home, environment, homes := ← readHomes }
  let settings := match Request.parse arguments with
    | .ok (.run config _) => (s.settings config).toOption
    | _ => none
  match settings.bind (·.definitions.directory) with
  | none => return s
  | some directory => return { s with tree := ← copyWay s.tree (Path.ofString directory).parts }

/-- The words for why a command breaks off. -/
def crashWords : Crash → String
  | .unreadable e => e.message
  | .definitions e => e.message
  | .settingsFile e => e.message
  | .noShare language => s!"no share for {language}"
  | _ => "the command cannot go on"

/-- Runs the program. -/
def run (arguments : List String) : IO UInt32 := do
  let r := CommandLine.run (← surroundings arguments) arguments
  let stdout ← IO.getStdout
  for line in r.lines do
    stdout.putStrLn line
  for line in r.complaints do
    IO.eprintln line
  for message in r.message do
    IO.eprintln s!"Error: {message}"
  for c in r.crash do
    IO.eprintln s!"Error: {crashWords c}"
  return r.exit.toUInt32

end LangId.Program

/-- Runs the program. -/
def main (arguments : List String) : IO UInt32 := LangId.Program.run arguments
