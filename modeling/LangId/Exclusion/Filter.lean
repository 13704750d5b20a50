import LangId.Config.Settings
import LangId.Exclusion.Rule
import LangId.Path

/-!
# What is kept out of statistics

Rules on paths in order: those that a user adds, those of the definitions, and those on files that
are no text by their extensions. The first rule that matches decides. Paths are brought to one
spelling before rules see them.
-/
namespace LangId

/-- Extensions of compiled, archived and media files. -/
def binaryExtensions : List String := [
  ".7z", ".a", ".bin", ".bz2", ".class", ".dll", ".dylib", ".egg", ".exe", ".gif", ".gz", ".ico",
  ".jar", ".jpeg", ".jpg", ".o", ".obj", ".pdf", ".png", ".pyc", ".pyo", ".so", ".tar", ".ttf",
  ".war", ".whl", ".woff", ".woff2", ".xz", ".zip"]

/-- The rules on extensions of files that are no text. -/
def binaryRules : Except ExclusionRule.Error (List ExclusionRule) :=
  binaryExtensions.mapM fun extension => ExclusionRule.make .binary ("*" ++ extension) .gitignore

/-- The rule that a user adds. -/
def ExtraRule.toRule (r : ExtraRule) : Except ExclusionRule.Error ExclusionRule :=
  ExclusionRule.make r.kind r.pattern r.form r.excluded

/-- Rules in order, and the kinds of rules that keep files out. -/
structure ExclusionFilter where
  rules : List ExclusionRule
  kinds : List ExclusionKind
  deriving Repr, DecidableEq

namespace ExclusionFilter

/-- The filter of some rules under settings. -/
def make (rules : List ExclusionRule) (settings : FilterSettings) :
    Except ExclusionRule.Error ExclusionFilter := do
  let extra ← settings.extraRules.mapM ExtraRule.toRule
  let binary ← binaryRules
  return ⟨extra ++ rules ++ binary, settings.kinds⟩

variable (f : ExclusionFilter)

/-- The first rule of some sort that matches a path. -/
def firstMatch? (counts : ExclusionRule → Bool) (path : String) : Option ExclusionRule :=
  let path := Path.canonical path
  f.rules.find? fun r => counts r && r.accepts path

/-- The first rule that matches a path. -/
def rule? (path : String) : Option ExclusionRule := f.firstMatch? (fun _ => true) path

/-- The first rule of a kind that counts that matches a path. -/
def deciding? (path : String) : Option ExclusionRule :=
  f.firstMatch? (fun r => f.kinds.contains r.kind) path

/-- Whether a path is kept out. -/
def excludes (path : String) : Bool := (f.deciding? path).any (·.excluded)

/-- Why a path is kept out; absent if it is not. -/
def excludedAs (path : String) : Option ExclusionKind :=
  match f.deciding? path with
  | some r => if r.excluded then some r.kind else none
  | none => none

/-- What the rules of one kind say about a path. -/
def excludesAs (kind : ExclusionKind) (path : String) : Bool :=
  (f.firstMatch? (fun r => r.kind == kind) path).any (·.excluded)

end ExclusionFilter

end LangId
