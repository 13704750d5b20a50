/-!
# Definition payloads

The definitions that a knowledge base is built from, as they are written down: languages,
heuristics, path patterns and training data. Entries are well-typed here, but not yet checked
against each other.
-/
namespace LangId

/-- A text, or several of them. -/
inductive OneOrMany where
  | one (text : String)
  | many (texts : List String)
  deriving Repr, DecidableEq

/-- All texts. -/
def OneOrMany.toList : OneOrMany → List String
  | one text => [text]
  | many texts => texts

/-- The declaration of a language. -/
structure LanguageEntry where
  category : String
  extensions : List String := []
  filenames : List String := []
  interpreters : List String := []
  aliases : List String := []
  modelines : List String := []
  color : Option String := none
  group : Option String := none
  deriving Repr, DecidableEq

/-- The patterns of a rule, all of which have to hold. -/
structure ClauseEntry where
  pattern : Option OneOrMany := none
  negativePattern : Option OneOrMany := none
  namedPattern : Option String := none
  deriving Repr, DecidableEq

/-- The declaration of a heuristic rule. -/
structure RuleEntry where
  clause : ClauseEntry := {}
  languages : OneOrMany
  /-- Further patterns that have to hold. -/
  further : List ClauseEntry := []
  deriving Repr, DecidableEq

/-- The rules of a group of extensions. -/
structure BlockEntry where
  extensions : List String
  rules : List RuleEntry
  deriving Repr, DecidableEq

/-- All heuristics. -/
structure HeuristicsEntry where
  blocks : List BlockEntry := []
  named : List (String × OneOrMany) := []
  deriving Repr, DecidableEq

/-- All definitions. -/
structure Payload where
  languages : List (String × LanguageEntry) := []
  heuristics : HeuristicsEntry := {}
  vendor : List String := []
  documentation : List String := []
  generated : List String := []
  /-- Token counts per language. -/
  counts : List (String × List (String × Int)) := []
  /-- Training texts per language. -/
  samples : List (String × List String) := []
  deriving Repr, DecidableEq

end LangId
