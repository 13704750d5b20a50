import LangId.Regex.Matching

/-!
# Patterns written as trees

Short names for the trees that fixed patterns are made of.
-/
namespace LangId.Regex.Node

/-- One given character. -/
def char (f : Folding) (c : Char) : Node := .one (.ofItems f false false [.char c.toNat])

/-- A given text. -/
def text (f : Folding) (s : String) : Node := .seqAll (s.toList.map (char f))

/-- One character of a class given by its members. -/
def oneOf (f : Folding) (items : List ClassItem) : Node := .one (.ofItems f false false items)

/-- One character that is not of a class given by its members. -/
def noneOf (f : Folding) (items : List ClassItem) : Node := .one (.ofItems f false true items)

/-- One character of a category. -/
def ofCategory (k : Category) : Node := .one { items := [.category k false] }

/-- Any number of times, as often as possible. -/
def many (n : Node) : Node := .loop n 0 none .greedy

/-- At least once, as often as possible. -/
def some (n : Node) : Node := .loop n 1 none .greedy

/-- Once if possible. -/
def optional (n : Node) : Node := .loop n 0 (Option.some 1) .greedy

/-- Any number of times, as seldom as possible. -/
def few (n : Node) : Node := .loop n 0 none .lazy

end LangId.Regex.Node
