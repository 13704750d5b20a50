/-!
# What can be wrong with a pattern

Three kinds of failure, since callers treat them differently: a pattern that is not well formed, a
repetition count that is too large, and two flags that exclude each other.
-/
namespace LangId.Regex

/-- Why a pattern is not well formed. -/
inductive Fault where
  | badEscape
  | badRange
  | openClass
  | badName
  | duplicateName
  | unknownName
  | unknownGroup
  /-- A reference to a group that is not yet closed. -/
  | openGroup
  /-- A reference, within a test of what stands before, to a group of that test. -/
  | groupInBehind
  | unknownExtension
  | badFlags
  /-- Flags for the whole pattern that do not stand at its beginning. -/
  | lateFlags
  | nothingToRepeat
  | repeatedRepeat
  /-- A repetition whose least count exceeds its largest. -/
  | emptyCounts
  | tooManyBranches
  | openParenthesis
  | strayParenthesis
  /-- The text of the pattern ends too early. -/
  | cutShort
  /-- A test of what stands before with a pattern of more than one width. -/
  | variableWidth
  /-- A repetition in a pattern whose flags allow none. -/
  | repeatNotAllowed
  deriving Repr, DecidableEq

/-- Why a pattern cannot be used. -/
inductive Error where
  | malformed (fault : Fault)
  | countTooLarge
  | conflictingFlags
  deriving Repr, DecidableEq

end LangId.Regex
