import LangId.Classifier.Ranking
import LangId.Knowledge.Base
import LangId.Modeline
import LangId.Sample
import LangId.Shebang

/-!
# The cascade

A file is identified by stages of evidence, from the name of the file to its content. Each stage
narrows the candidates, and the first one that leaves a single language decides. If the stages
leave several, a classifier may choose among them.
-/
namespace LangId

/-- A stage of evidence. -/
inductive Stage where
  | filename
  | shebang
  | extension
  | modeline
  | heuristics
  deriving Repr, DecidableEq

namespace Stage

/-- The name of a stage. -/
def name : Stage → String
  | filename => "filename"
  | shebang => "shebang"
  | extension => "extension"
  | modeline => "modeline"
  | heuristics => "heuristics"

/-- All stages in order. -/
def all : List Stage := [filename, shebang, extension, modeline, heuristics]

/-- The stage of a name. -/
def ofName? (s : String) : Option Stage := all.find? (·.name == s)

theorem ofName?_name (s : Stage) : ofName? s.name = some s := by cases s <;> decide

end Stage

namespace KnowledgeBase

variable (kb : KnowledgeBase)

/-- The languages of an interpreter; one that no language declares is looked up without its
version. -/
def ofInterpreter (interpreter : String) : Candidates :=
  let found := kb.byInterpreter interpreter
  if found.isEmpty then
    match Shebang.stripVersion? interpreter with
    | some bare => kb.byInterpreter bare
    | none => found
  else found

/-- The languages of the longest extension that any language declares. -/
def ofExtensions? (extensions : List String) : Option Candidates :=
  (extensions.map kb.byExtension).find? (!·.isEmpty)

/-- The rules of the longest extension that has any. -/
def rulesOfExtensions (extensions : List String) : List HeuristicRule :=
  ((extensions.map kb.rulesFor).find? (!·.isEmpty)).getD []

/-- The candidates that the first rule that applies to a content confirms. -/
def confirmed? (extensions : List String) (content : List Char) (c : Candidates) :
    Option Candidates :=
  (firstApplying? (kb.rulesOfExtensions extensions) content).map fun r =>
    ⟨c.members.filter fun l => r.languages.contains l.name, false⟩

/-- What a stage proposes for a file; absent if it says nothing. -/
def proposal? (file : Sample) (c : Candidates) : Stage → Option Candidates
  | .filename => some (kb.byFilename file.basename)
  | .shebang => (Shebang.interpreter? file.content).map kb.ofInterpreter
  | .extension => kb.ofExtensions? file.extensions
  | .modeline => (Modeline.find? file.lines).map kb.byMode
  | .heuristics =>
    if c.size ≤ 1 then none else kb.confirmed? file.extensions file.content c

/-- The narrower candidates that a stage leads to; absent if it leaves them as they are. -/
def narrow? (stage : Stage) (file : Sample) (c : Candidates) : Option Candidates :=
  (kb.proposal? file c stage).bind c.narrow?

/-- The candidates that a stage leaves. -/
def narrow (stage : Stage) (file : Sample) (c : Candidates) : Candidates :=
  (kb.narrow? stage file c).getD c

end KnowledgeBase

/-- What has decided about a file. -/
inductive Strategy where
  | stage (s : Stage)
  | classifier
  deriving Repr, DecidableEq

namespace Strategy

/-- The name of a strategy. -/
def name : Strategy → String
  | stage s => s.name
  | classifier => "classifier"

/-- The strategy of a name. -/
def ofName? (s : String) : Option Strategy :=
  if s == "classifier" then some classifier else (Stage.ofName? s).map stage

end Strategy

/-- Why no language has been found. -/
inductive NoMatch where
  | unknown
  | ambiguous
  | binary
  deriving Repr, DecidableEq

namespace NoMatch

/-- The name of a reason. -/
def name : NoMatch → String
  | unknown => "unknown"
  | ambiguous => "ambiguous"
  | binary => "binary"

/-- All reasons. -/
def all : List NoMatch := [unknown, ambiguous, binary]

/-- The reason of a name. -/
def ofName? (s : String) : Option NoMatch := all.find? (·.name == s)

theorem ofName?_name (r : NoMatch) : ofName? r.name = some r := by cases r <;> decide

end NoMatch

/-- What has been found out about a file: its language and what has decided, or why there is none
and which languages are left. -/
inductive Verdict where
  | language (name : String) (decidedBy : Strategy)
  | noMatch (reason : NoMatch) (candidates : List String)
  deriving Repr, DecidableEq

namespace Verdict

/-- The language that has been found. -/
def language? : Verdict → Option String
  | language name _ => some name
  | noMatch _ _ => none

/-- What has decided. -/
def strategy? : Verdict → Option Strategy
  | language _ decidedBy => some decidedBy
  | noMatch _ _ => none

/-- Why there is no language. -/
def reason? : Verdict → Option NoMatch
  | language _ _ => none
  | noMatch reason _ => some reason

/-- The languages that are left. -/
def candidates : Verdict → List String
  | language name _ => [name]
  | noMatch _ candidates => candidates

end Verdict

/-- What has been found out about the file of a path. -/
structure Identification where
  path : String
  verdict : Verdict
  deriving Repr, DecidableEq

/-- A way to choose among candidates by a content. -/
abbrev Chooser := List Char → Candidates → Except ScoreError (Option Language)

namespace KnowledgeBase

variable (kb : KnowledgeBase)

/-- Goes through stages until one leaves a single language. -/
def runStages (file : Sample) : Candidates → List Stage → (Language × Stage) ⊕ Candidates
  | c, [] => .inr c
  | c, stage :: rest =>
    let c := kb.narrow stage file c
    match c.single? with
    | some l => .inl (l, stage)
    | none => runStages file c rest

/-- What is said of candidates that no stage has brought down to one. -/
def settle (chooser : Option Chooser) (file : Sample) (c : Candidates) :
    Except ScoreError Verdict :=
  let ambiguous := Verdict.noMatch .ambiguous (Text.sorted c.names)
  if c.isUniverse then .ok (.noMatch .unknown [])
  else
    match chooser with
    | none => .ok ambiguous
    | some choose => do
      match ← choose file.content c with
      | some l => return .language l.name .classifier
      | none => return ambiguous

/-- What is found out about a file. The name of a file decides even if its content is no text. -/
def verdict (chooser : Option Chooser) (file : Sample) : Except ScoreError Verdict :=
  let c := kb.narrow .filename file kb.all
  match c.single? with
  | some l => .ok (.language l.name (.stage .filename))
  | none =>
    if file.isBinary then .ok (.noMatch .binary [])
    else
      match kb.runStages file c [.shebang, .extension, .modeline, .heuristics] with
      | .inl (l, stage) => .ok (.language l.name (.stage stage))
      | .inr c => settle chooser file c

/-- Identifies a file. -/
def identify (chooser : Option Chooser) (file : Sample) : Except ScoreError Identification :=
  (kb.verdict chooser file).map fun v => ⟨file.path, v⟩

end KnowledgeBase

end LangId
