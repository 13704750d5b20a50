import LangId.Exclusion.Rule
import LangId.Token

/-!
# Settings

What a user can choose, in sections, each with its defaults.
-/
namespace LangId

/-- Where definitions come from: a directory, or those that come with the program. -/
structure DefinitionSettings where
  directory : Option String := none
  deriving Repr, DecidableEq

/-- How many octets of a file are looked at. -/
structure SamplingSettings where
  maxBytes : Nat := 51200
  deriving Repr, DecidableEq

/-- How the classifier works. -/
structure ClassifierSettings where
  enabled : Bool := true
  smoothing : Float := 1.0
  maxTokens : Nat := Token.defaultBound
  deriving Repr

/-- A rule on paths that goes before those of the definitions. -/
structure ExtraRule where
  pattern : String
  kind : ExclusionKind := .vendor
  form : RuleForm := .gitignore
  excluded : Bool := true
  deriving Repr, DecidableEq

/-- What is kept out of statistics. -/
structure FilterSettings where
  extraRules : List ExtraRule := []
  /-- The kinds of rules that count. -/
  kinds : List ExclusionKind := ExclusionKind.all
  respectGitignore : Bool := true
  deriving Repr, DecidableEq

/-- How trees are analysed. -/
structure AnalysisSettings where
  maxWorkers : Nat := 4
  /-- Whether files that are kept out are identified all the same. -/
  identifyExcluded : Bool := false
  /-- Whether a report tells every file. -/
  includeFiles : Bool := false
  /-- Whether an unreadable file ends an analysis. -/
  failOnUnreadable : Bool := false
  deriving Repr, DecidableEq

/-- How events are logged. -/
structure LoggingSettings where
  level : String := "WARNING"
  format : String := "console"
  file : Option String := none
  rotation : String := "10 MB"
  retention : String := "7 days"
  deriving Repr, DecidableEq

/-- All settings. -/
structure Settings where
  definitions : DefinitionSettings := {}
  sampling : SamplingSettings := {}
  classifier : ClassifierSettings := {}
  filter : FilterSettings := {}
  analysis : AnalysisSettings := {}
  logging : LoggingSettings := {}
  deriving Repr

end LangId
