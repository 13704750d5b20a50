import LangId.Regex.CharClass

/-!
# Patterns as trees

The abstract form of a pattern. Flags have no place here: what they decide is written into the
classes and anchors of the tree.
-/
namespace LangId.Regex

/-- A test on a place between characters. -/
inductive Anchor where
  | textStart
  | textEnd
  /-- The end of the text, or in front of a line feed that ends it. -/
  | finalLineEnd
  | lineStart
  | lineEnd
  /-- A place between a word character and another, or the reverse when negated. A text without
  characters has no such place of either kind. -/
  | wordEdge (ascii negated : Bool)
  deriving Repr, DecidableEq

/-- In which order the counts of a repetition are tried. -/
inductive Appetite where
  /-- The largest count first. -/
  | greedy
  /-- The smallest count first. -/
  | lazy
  /-- The largest count only. -/
  | possessive
  deriving Repr, DecidableEq

/-- A pattern. -/
inductive Node where
  | empty
  | one (s : CharClass)
  | seq (first second : Node)
  | alt (first second : Node)
  /-- A group whose text is kept under a number. -/
  | group (index : Nat) (body : Node)
  /-- The text kept under a number. -/
  | back (index : Nat) (folding : Folding)
  | loop (body : Node) (min : Nat) (max : Option Nat) (appetite : Appetite)
  /-- A test that the body matches, or does not, from here on. -/
  | ahead (negated : Bool) (body : Node)
  /-- A test that the body matches, or does not, from `width` characters back. -/
  | behind (negated : Bool) (width : Nat) (body : Node)
  /-- The first match of the body and no other. -/
  | atomic (body : Node)
  /-- One of two patterns, by whether a number has a text. -/
  | cond (index : Nat) (whenSet whenUnset : Node)
  | anchor (a : Anchor)
  deriving Repr, DecidableEq

/-- Patterns one after the other. -/
def Node.seqAll : List Node → Node
  | [] => .empty
  | [n] => n
  | n :: rest => .seq n (seqAll rest)

/-- A choice between patterns, the first before the others. -/
def Node.altAll : List Node → Node
  | [] => .empty
  | [n] => n
  | n :: rest => .alt n (altAll rest)

end LangId.Regex
