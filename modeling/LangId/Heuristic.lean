import LangId.Regex.Pattern

/-!
# Heuristic rules

Rules that tell apart the languages of a shared extension by patterns in the content. The rules of
a block are tried in order; the first one all of whose clauses hold decides.
-/
namespace LangId

/-- A condition on a content: that a pattern occurs in it, or does not. -/
structure Clause where
  pattern : Regex.Pattern
  negated : Bool := false
  deriving Repr, DecidableEq

/-- Whether a clause holds for a content. -/
def Clause.holds (c : Clause) (content : List Char) : Bool :=
  c.pattern.occursIn content != c.negated

/-- A rule that confirms some languages. -/
structure HeuristicRule where
  /-- The position of the rule in its block. -/
  order : Nat
  /-- The extensions of its block. -/
  extensions : List String
  /-- The names of the languages that it confirms. -/
  languages : List String
  /-- What has to hold, all of it; a rule without clauses always applies. -/
  clauses : List Clause := []
  deriving Repr, DecidableEq

/-- Whether all clauses of a rule hold for a content. -/
def HeuristicRule.applies (r : HeuristicRule) (content : List Char) : Bool :=
  r.clauses.all (·.holds content)

/-- The rules of a group of extensions. -/
structure HeuristicBlock where
  extensions : List String
  rules : List HeuristicRule
  deriving Repr, DecidableEq

/-- The first rule that applies to a content. -/
def firstApplying? (rules : List HeuristicRule) (content : List Char) : Option HeuristicRule :=
  rules.find? (·.applies content)

end LangId
