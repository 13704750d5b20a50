import LangId.Data.Issue
import LangId.Exclusion.Rule
import LangId.Knowledge.Payload
import LangId.Text.Quoted

/-!
# What can be wrong with definitions

Each cause with its message and, where there is one, the part of the definitions that it lies in.
-/
namespace LangId

open Text

/-- Why definitions are refused. -/
inductive DefinitionError where
  /-- The definitions do not have the shape of a payload. -/
  | badShape (issues : List Data.Issue)
  | noPatterns (source : String)
  | badPattern (joined source : String) (fault : Regex.Fault)
  | unknownCategory (category language : String)
  | badExtension (extension language : String)
  | undeclaredInRule (language source : String)
  | unknownPattern (pattern source : String)
  | repeatedExtension (extension source : String)
  | badPathPattern (kind : ExclusionKind) (pattern : String) (fault : Regex.Fault)
  | undeclaredCounts (language : String)
  | negativeCount (language : String)
  | undeclaredSamples (language : String)
  | duplicateLanguage (language : String)
  | undeclaredConfirmed (extension language : String)
  | undeclaredModel (language : String)
  deriving Repr

namespace DefinitionError

/-- What a message says. Where the cause is a fault of a pattern or of the shape, its own words
come behind the message. -/
def message : DefinitionError → String
  | badShape _ => "Invalid definition payload: "
  | noPatterns _ => "Empty pattern list"
  | badPattern joined _ _ => s!"Invalid pattern {quoted joined}: "
  | unknownCategory category language =>
    s!"Unknown type {quoted category} for language {language}"
  | badExtension extension language =>
    s!"Extension {quoted extension} of {language} must start with '.'"
  | undeclaredInRule language _ => s!"Heuristic rule references undeclared language: {language}"
  | unknownPattern pattern _ => s!"Undefined named pattern: {pattern}"
  | repeatedExtension extension _ =>
    s!"Extension {extension} appears in more than one disambiguation"
  | badPathPattern kind pattern _ => s!"Invalid {kind.name} pattern {quoted pattern}: "
  | undeclaredCounts language => s!"Classifier table for undeclared language: {language}"
  | negativeCount language => s!"Negative token count in classifier table for {language}"
  | undeclaredSamples language => s!"Training samples for undeclared language: {language}"
  | duplicateLanguage language => s!"Duplicate language name: {language}"
  | undeclaredConfirmed extension language =>
    s!"Heuristic rule for {extension} references undeclared language: {language}"
  | undeclaredModel language => s!"Classifier model for undeclared language: {language}"

/-- The part of the definitions that the error lies in. -/
def source? : DefinitionError → Option String
  | badShape _ => none
  | noPatterns source => some source
  | badPattern _ source _ => some source
  | unknownCategory _ _ => some "languages"
  | badExtension _ _ => some "languages"
  | undeclaredInRule _ source => some source
  | unknownPattern _ source => some source
  | repeatedExtension _ source => some source
  | badPathPattern kind _ _ => some kind.name
  | undeclaredCounts _ => some "classifier"
  | negativeCount _ => some "classifier"
  | undeclaredSamples _ => some "samples"
  | duplicateLanguage _ => some "languages"
  | undeclaredConfirmed _ _ => some "heuristics"
  | undeclaredModel _ => some "classifier"

end DefinitionError

/-- Why a knowledge base cannot be built: the definitions are refused, or a pattern is well formed
and beyond what can be searched for. -/
inductive BuildError where
  | definition (e : DefinitionError)
  | pattern (e : Regex.Error)
  deriving Repr

end LangId
