/-!
# Issues

What can be wrong with a piece of data, and where in it.
-/
namespace LangId.Data

/-- A step into data: to a field or key, or to a position. -/
inductive Step where
  | field (name : String)
  | index (n : Int)
  deriving Repr, DecidableEq

/-- What is wrong. -/
inductive Problem where
  | missing
  | unknownField
  /-- A key that is not a text, where only named fields are allowed. -/
  | badKey
  | notText
  | undecodableText
  | emptyText
  | notInteger
  | unreadableInteger
  | tooLongInteger
  | fractionalInteger
  | infiniteInteger
  | notNumber
  | unreadableNumber
  | notTruth
  | unreadableTruth
  | notList
  | notMap
  | notSet
  | notRecord
  | notPath
  /-- A path that holds the character with which texts of the file system end. -/
  | nulInPath
  | notMember
  | notLiteral
  | notAbove
  | notAtLeast
  | notAtMost
  deriving Repr, DecidableEq

/-- Something wrong at a place. -/
structure Issue where
  place : List Step
  problem : Problem
  deriving Repr, DecidableEq

/-- A result, or everything that stands in its way. -/
inductive Checked (α : Type) where
  | ok (a : α)
  | bad (issues : List Issue)
  deriving Repr

namespace Checked

variable {α β : Type}

/-- Changes a result. -/
def map (f : α → β) : Checked α → Checked β
  | ok a => ok (f a)
  | bad issues => bad issues

/-- Applies a result to another one; what is wrong with both is collected. -/
def apply : Checked (α → β) → Checked α → Checked β
  | ok f, ok a => ok (f a)
  | ok _, bad more => bad more
  | bad issues, ok _ => bad issues
  | bad issues, bad more => bad (issues ++ more)

instance : Functor Checked where
  map := map

instance : Applicative Checked where
  pure := ok
  seq f x := apply f (x ())

/-- One thing wrong, at the place looked at. -/
def problem (p : Problem) : Checked α := bad [⟨[], p⟩]

/-- Tells issues of a part as issues of the whole. -/
def within (step : Step) : Checked α → Checked α
  | ok a => ok a
  | bad issues => bad (issues.map fun i => { i with place := step :: i.place })

/-- All results, or all issues. -/
def all (results : List (Checked α)) : Checked (List α) :=
  results.foldr (fun r rest => apply (map List.cons r) rest) (ok [])

/-- Goes on with a result. -/
def andThen (r : Checked α) (f : α → Checked β) : Checked β :=
  match r with
  | ok a => f a
  | bad issues => bad issues

/-- The issues, none if there is a result. -/
def issues : Checked α → List Issue
  | ok _ => []
  | bad issues => issues

/-- The result, if there is one. -/
def toExcept : Checked α → Except (List Issue) α
  | ok a => .ok a
  | bad issues => .error issues

end Checked

end LangId.Data
