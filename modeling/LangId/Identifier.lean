import LangId.Exclusion.Filter
import LangId.Provider
import LangId.Report

/-!
# Identifying files

Everything that identification needs, put together from definitions and settings: single files are
identified, and many files are summed up in a report. What is kept out of statistics is identified
all the same when it is asked for by itself.
-/
namespace LangId

/-- What identification works with. -/
structure Identifier where
  settings : Settings
  knowledge : KnowledgeBase
  filter : ExclusionFilter

/-- What has become of a file. -/
structure Outcome where
  path : String
  size : Int := 0
  excludedAs : Option ExclusionKind := none
  result : Option Identification := none
  error : Option Unreadable := none
  deriving Repr, DecidableEq

/-- Adds what has become of a file to a report. An unreadable file is an error if the settings say
so. -/
def Report.merge (settings : AnalysisSettings) (r : Report) (o : Outcome) :
    Except Unreadable Report :=
  match o.error with
  | some e =>
    if settings.failOnUnreadable then .error e
    else .ok { r with unreadable := r.unreadable ++ [o.path] }
  | none =>
    let counted :=
      if o.excludedAs.isSome then { r with excluded := r.excluded.add o.size }
      else
        match o.result.bind (·.verdict.language?) with
        | some language => r.addLanguage language o.size
        | none => { r with unknown := r.unknown.add o.size }
    if settings.includeFiles then
      .ok { counted with files := counted.files ++ [⟨o.path, o.size, o.excludedAs, o.result⟩] }
    else .ok counted

namespace Identifier

/-- Why definitions and settings cannot be put together. -/
inductive Error where
  | rule (e : ExclusionRule.Error)
  /-- The classifier cannot smooth as it is told to. -/
  | smoothing
  deriving Repr, DecidableEq

/-- Puts definitions and settings together. -/
def make (knowledge : KnowledgeBase) (settings : Settings := {}) : Except Error Identifier :=
  match ExclusionFilter.make knowledge.exclusionRules settings.filter with
  | .error e => .error (.rule e)
  | .ok filter =>
    if settings.classifier.enabled && knowledge.hasModels &&
        !Classifier.canSmooth settings.classifier.smoothing then .error .smoothing
    else .ok ⟨settings, knowledge, filter⟩

variable (i : Identifier)

/-- The classifier that the settings describe. -/
def classifier : Classifier Float :=
  ⟨.double, i.settings.classifier.smoothing, i.settings.classifier.maxTokens⟩

/-- How the classifier chooses; absent if it is turned off or has no models. -/
def chooser : Option Chooser :=
  if i.settings.classifier.enabled && i.knowledge.hasModels then
    some (i.classifier.classify i.knowledge.model? i.knowledge.vocabulary)
  else none

/-- The sample that is taken of a content. -/
def sample (path : String) (content : Content) : Sample :=
  Sample.ofBytes path content.bytes i.settings.sampling.maxBytes (some content.size)

/-- Identifies a file. -/
def identify (path : String) (bytes : List UInt8) : Except ScoreError Identification :=
  i.knowledge.identify i.chooser (i.sample (Path.canonical path) (Content.whole bytes))

/-- Reads a file, and identifies it unless it is kept out. -/
def evaluate (path : String) (provider : Provider) : Except ScoreError Outcome :=
  match provider path with
  | .error e => .ok { path, error := some e }
  | .ok content =>
    let excludedAs := i.filter.excludedAs path
    if excludedAs.isSome && !i.settings.analysis.identifyExcluded then
      .ok { path, size := content.size, excludedAs }
    else
      (i.knowledge.identify i.chooser (i.sample path content)).map fun result =>
        { path, size := content.size, excludedAs, result := some result }

/-- Why an analysis ends early. -/
inductive Interruption where
  | unreadable (e : Unreadable)
  | score (e : ScoreError)
  deriving Repr, DecidableEq

/-- Evaluates a file and adds the outcome to a report. -/
def add (provider : Provider) (r : Report) (path : String) : Except Interruption Report :=
  match i.evaluate path provider with
  | .error e => .error (.score e)
  | .ok o => (r.merge i.settings.analysis o).mapError .unreadable

/-- The report on some files. -/
def analyze (paths : List String) (provider : Provider) : Except Interruption Report :=
  (paths.map Path.canonical).foldlM (i.add provider) {}

end Identifier

end LangId
