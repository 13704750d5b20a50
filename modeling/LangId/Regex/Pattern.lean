import LangId.Regex.Matching
import LangId.Regex.Parser

/-!
# Compiled patterns

A pattern's text beside its tree, so that reports can show the one and searches run the other.
-/
namespace LangId.Regex

/-- A pattern ready to be searched for. -/
structure Pattern where
  source : String
  node : Node
  deriving Repr, DecidableEq

/-- Reads the text of a pattern. -/
def Pattern.compile (flags : Flags) (source : String) : Except Error Pattern :=
  (parse flags source.toList).map fun node => ⟨source, node⟩

/-- The first match in a text. -/
def Pattern.search (p : Pattern) (text : List Char) : Option Match := p.node.search text

/-- Whether a text holds a match. -/
def Pattern.occursIn (p : Pattern) (text : List Char) : Bool := (p.search text).isSome

end LangId.Regex
