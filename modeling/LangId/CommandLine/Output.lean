import LangId.Data.Json.Printer
import LangId.Report
import LangId.Tree

/-!
# Output

How results are shown: as lines of text, or as JSON.
-/
namespace LangId.CommandLine

open Data

/-- A record of named fields. -/
def record (fields : List (String × Value)) : Value :=
  .map (fields.map fun (name, v) => (.text name, v))

/-- A text, or null. -/
def textOrNull : Option String → Value
  | some s => .text s
  | none => .null

/-- An identification as data. -/
def identificationData (i : Identification) : Value :=
  record [
    ("path", .text i.path),
    ("language", textOrNull i.verdict.language?),
    ("strategy", textOrNull (i.verdict.strategy?.map (·.name))),
    ("reason", textOrNull (i.verdict.reason?.map (·.name))),
    ("candidates", .list (i.verdict.candidates.map .text))]

/-- Totals as data. -/
def totalsData (t : Totals) : Value :=
  record [("bytes", .integer t.bytes), ("files", .integer t.files)]

/-- What is told about a single file, as data. -/
def fileData (f : FileReport) : Value :=
  record [
    ("path", .text f.path),
    ("size", .integer f.size),
    ("excluded_as", textOrNull (f.excludedAs.map (·.name))),
    ("result", (f.result.map identificationData).getD .null)]

/-- A report as data. -/
def reportData (r : Report) : Value :=
  record [
    ("languages", record (r.languages.map fun (name, t) => (name, totalsData t))),
    ("unknown", totalsData r.unknown),
    ("excluded", totalsData r.excluded),
    ("unreadable", .list (r.unreadable.map .text)),
    ("files", .list (r.files.map fileData))]

/-- Identifications as JSON, in ASCII. -/
def identificationsJson (found : List Identification) : String :=
  Json.print { indent := some 2 } (.list (found.map identificationData))

/-- A report as JSON. -/
def reportJson (r : Report) : String :=
  Json.print { ascii := false, indent := some 2 } (reportData r)

/-- Fills a text up with spaces in front. -/
def padLeft (width : Nat) (s : String) : String :=
  String.ofList (List.replicate (width - s.length) ' ') ++ s

/-- Fills a text up with spaces behind. -/
def padRight (width : Nat) (s : String) : String :=
  s ++ String.ofList (List.replicate (width - s.length) ' ')

/-- The line of an identification. -/
def identificationLine (i : Identification) : String :=
  match i.verdict with
  | .language name decidedBy => s!"{i.path}: {name} ({decidedBy.name})"
  | .noMatch reason candidates =>
    let shown := if candidates.isEmpty then "" else " [" ++ ", ".intercalate candidates ++ "]"
    s!"{i.path}: no match ({reason.name}){shown}"

/-- The line of a language in a report. -/
def languageLine (name : String) (share : Float) (t : Totals) : String :=
  s!"  {padLeft 6 (Report.shareText share)}%  {padRight 24 name} {t.bytes} bytes, {t.files} files"

/-- The lines of the languages of a report up to the first one without a share, and this one. -/
def languageLines (shares : List (String × Float)) :
    List (String × Totals) → List String × Option String
  | [] => ([], none)
  | (name, t) :: rest =>
    match shares.lookup name with
    | none => ([], some name)
    | some share =>
      let (lines, stopped) := languageLines shares rest
      (languageLine name share t :: lines, stopped)

/-- The lines above those of the languages. -/
def languageHeading : List String := ["", "Languages:", String.ofList (List.replicate 60 '-')]

/-- The lines on files that count for no language. -/
def remainderLines (r : Report) : List String :=
  ["", s!"Unknown: {r.unknown.files} files, {r.unknown.bytes} bytes",
    s!"Excluded: {r.excluded.files} files, {r.excluded.bytes} bytes"]
    ++ (if r.unreadable.isEmpty then [] else [s!"Unreadable: {r.unreadable.length} files"])

/-- The line of a single file in a report. -/
def fileLine (f : FileReport) : String :=
  let label := match f.excludedAs, f.result.map (·.verdict) with
    | some kind, _ => s!"excluded ({kind.name})"
    | none, some (.language name decidedBy) => s!"{name} ({decidedBy.name})"
    | none, _ => "unknown"
  s!"  {f.path}: {label}"

/-- The lines on single files. -/
def fileLines (r : Report) : List String := ["", "Files:"] ++ r.files.map fileLine

/-- The line of a path that has been checked against the rules. -/
def exclusionLine (path : String) : Option ExclusionKind → String
  | some kind => s!"{path}: excluded ({kind.name})"
  | none => s!"{path}: counted"

/-- The words for a fault in a tree. -/
def faultWords : Tree.Fault → String
  | .missing => "No such file or directory"
  | .notDirectory => "Not a directory"
  | .isDirectory => "Is a directory"
  | .tooManyLinks => "Too many levels of symbolic links"

/-- The line of a file that cannot be read. -/
def complaint (path : Path) (f : Tree.Fault) : String :=
  s!"{path.toString}: cannot read ({faultWords f})"

end LangId.CommandLine
