import LangId.Text.Order

/-!
# Languages

What is declared about a language: its name, its category, and the keys by which files of it are
found.
-/
namespace LangId

/-- The broad category of a language. -/
inductive Category where
  | programming
  | markup
  | data
  | prose
  deriving Repr, DecidableEq

namespace Category

/-- The name of a category. -/
def name : Category → String
  | programming => "programming"
  | markup => "markup"
  | data => "data"
  | prose => "prose"

/-- All categories. -/
def all : List Category := [programming, markup, data, prose]

/-- The category of a name. -/
def ofName? (s : String) : Option Category := all.find? (·.name == s)

theorem ofName?_name (c : Category) : ofName? c.name = some c := by cases c <;> decide

end Category

/-- A declared language. Sets of keys are in order and without repetition, so that two languages
are equal exactly if they declare the same. -/
structure Language where
  name : String
  category : Category
  extensions : List String := []
  filenames : List String := []
  interpreters : List String := []
  /-- The names by which editors know the language. -/
  modes : List String := []
  aliases : List String := []
  color : Option String := none
  group : Option String := none
  deriving Repr, DecidableEq

/-- A language whose keys are given in any order. -/
def Language.withKeys (l : Language) (extensions filenames interpreters modes : List String) :
    Language :=
  { l with
    extensions := Text.sortedSet extensions
    filenames := Text.sortedSet filenames
    interpreters := Text.sortedSet interpreters
    modes := Text.sortedSet modes }

end LangId
