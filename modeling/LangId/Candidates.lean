import LangId.Language
import LangId.Text.Quoted

/-!
# Candidates

The languages that a file may still be written in. The set that identification begins with holds
all languages and is marked, so that it can be told from a set that evidence has led to. Evidence
narrows a set to what both hold, but never to nothing: a proposal that contradicts the set, or says
nothing new, leaves it as it is.
-/
namespace LangId

/-- A set of languages, in order of their names. -/
structure Candidates where
  members : List Language
  /-- Whether this is the set of all languages, before any evidence. -/
  isUniverse : Bool := false
  deriving Repr, DecidableEq

namespace Candidates

/-- Whether a language comes no later than another one by name. -/
def byName (a b : Language) : Bool := Text.notAfter a.name b.name

/-- The set of some languages. -/
def ofList (languages : List Language) (isUniverse : Bool := false) : Candidates :=
  ⟨languages.eraseDups.mergeSort byName, isUniverse⟩

/-- The set without languages. -/
def empty : Candidates := ⟨[], false⟩

/-- The names of the languages, in order. -/
def names (c : Candidates) : List String := c.members.map (·.name)

/-- The number of languages. -/
def size (c : Candidates) : Nat := c.members.length

/-- Whether there is no language. -/
def isEmpty (c : Candidates) : Bool := c.members.isEmpty

/-- Whether a language is among them. -/
def contains (c : Candidates) (l : Language) : Bool := c.members.contains l

/-- Whether a language of a name is among them. -/
def containsName (c : Candidates) (name : String) : Bool := c.members.any (·.name == name)

/-- Whether two sets hold the same languages. -/
def sameMembers (a b : Candidates) : Bool :=
  a.members.all b.contains && b.members.all a.contains

/-- Whether two sets hold the same languages and are marked alike. -/
def equals (a b : Candidates) : Bool := a.sameMembers b && a.isUniverse == b.isUniverse

/-- The languages that two sets share. -/
def inter (a b : Candidates) : List Language := a.members.filter b.contains

/-- The narrower set that a proposal leads to; absent if it leaves the set as it is. -/
def narrow? (a b : Candidates) : Option Candidates :=
  if b.isUniverse then none
  else
    let shared := a.inter b
    if shared.isEmpty || (shared.length == a.members.length && !a.isUniverse) then none
    else some ⟨shared, false⟩

/-- The set narrowed by a proposal. -/
def narrow (a b : Candidates) : Candidates := (a.narrow? b).getD a

/-- The language that evidence has led to, if only one is left. -/
def single? (c : Candidates) : Option Language :=
  match c.members, c.isUniverse with
  | [l], false => some l
  | _, _ => none

/-- The set as messages show it. -/
def describe (c : Candidates) : String :=
  if c.isUniverse then s!"CandidateSet(<all {c.size} languages>)"
  else s!"CandidateSet({Text.quotedList c.names})"

end Candidates

end LangId
