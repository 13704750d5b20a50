import LangId.Gitignore.Pattern
import LangId.Regex.Pattern

/-!
# Exclusion rules

Rules on paths that say what is kept out of statistics, and why. A rule is written as a pattern or
as a line of a `.gitignore` file.
-/
namespace LangId

/-- Why a path is kept out of statistics. -/
inductive ExclusionKind where
  | vendor
  | generated
  | documentation
  | binary
  deriving Repr, DecidableEq

namespace ExclusionKind

/-- The name of a kind. -/
def name : ExclusionKind → String
  | vendor => "vendor"
  | generated => "generated"
  | documentation => "documentation"
  | binary => "binary"

/-- All kinds. -/
def all : List ExclusionKind := [vendor, generated, documentation, binary]

/-- The kind of a name. -/
def ofName? (s : String) : Option ExclusionKind := all.find? (·.name == s)

theorem ofName?_name (k : ExclusionKind) : ofName? k.name = some k := by cases k <;> decide

end ExclusionKind

/-- How the text of a rule is written. -/
inductive RuleForm where
  | regex
  | gitignore
  deriving Repr, DecidableEq

namespace RuleForm

/-- The name of a form. -/
def name : RuleForm → String
  | regex => "regex"
  | gitignore => "gitignore"

/-- All forms. -/
def all : List RuleForm := [regex, gitignore]

/-- The form of a name. -/
def ofName? (s : String) : Option RuleForm := all.find? (·.name == s)

theorem ofName?_name (f : RuleForm) : ofName? f.name = some f := by cases f <;> decide

end RuleForm

/-- What a rule tests a path with. -/
inductive PathTest where
  | regex (p : Regex.Pattern)
  /-- A line of a `.gitignore` file, absent if the line says nothing. -/
  | gitignore (p : Option Gitignore.Pattern)
  deriving Repr, DecidableEq

/-- Whether a path passes a test. -/
def PathTest.accepts (t : PathTest) (path : String) : Bool :=
  match t with
  | .regex p => p.occursIn path.toList
  | .gitignore p => Gitignore.ignores p.toList path.toList

/-- A rule on paths. -/
structure ExclusionRule where
  kind : ExclusionKind
  pattern : String
  form : RuleForm
  /-- Whether a path that the rule matches is kept out. -/
  excluded : Bool
  test : PathTest
  deriving Repr, DecidableEq

namespace ExclusionRule

/-- Why a rule cannot be made. -/
inductive Error where
  | regex (e : Regex.Error)
  | gitignore (e : Gitignore.Error)
  deriving Repr, DecidableEq

/-- Makes a rule that is written as a pattern. -/
def ofRegex (kind : ExclusionKind) (pattern : String) (excluded : Bool := true) :
    Except Regex.Error ExclusionRule :=
  (Regex.Pattern.compile {} pattern).map fun p => ⟨kind, pattern, .regex, excluded, .regex p⟩

/-- Makes a rule that is written as a line of a `.gitignore` file. -/
def ofGitignore (kind : ExclusionKind) (pattern : String) (excluded : Bool := true) :
    Except Gitignore.Error ExclusionRule :=
  (Gitignore.Pattern.ofLine pattern).map fun p =>
    ⟨kind, pattern, .gitignore, excluded, .gitignore p⟩

/-- Makes a rule. -/
def make (kind : ExclusionKind) (pattern : String) (form : RuleForm := .regex)
    (excluded : Bool := true) : Except Error ExclusionRule :=
  match form with
  | .regex => (ofRegex kind pattern excluded).mapError .regex
  | .gitignore => (ofGitignore kind pattern excluded).mapError .gitignore

/-- Whether a rule matches a path. -/
def accepts (r : ExclusionRule) (path : String) : Bool := r.test.accepts path

end ExclusionRule

end LangId
