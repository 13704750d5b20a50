import LangId.Gitignore.Pattern
import LangId.Text.Utf8
import LangId.Tree

/-!
# Ignored files

Which files of a tree are ignored. Two directories can say so in a `.gitignore` file: the nearest
one upwards that holds `.git`, and the one that is looked at. Below each of them the metadata of
version control is ignored as well.
-/
namespace LangId.Gitignore

open Text

/-- Directories of version control. -/
def metadataNames : List String := [".git", ".hg", ".svn"]

/-- The lines that go before those of every file. -/
def builtinLines : List String := metadataNames.map (· ++ "/")

/-- The lines of a file without white space around them, blank ones and comments left out. -/
def effectiveLines (text : List Char) : List String :=
  let found := (splitOn '\n' (unifyEnds text)).map trim
  (found.filter fun line => !line.isEmpty && line.head? != some '#').map String.ofList

/-- What is ignored below some directories. -/
structure Filter where
  /-- The directory that relative paths begin at. -/
  root : Tree.Place
  /-- Directories with the patterns for what is below them. -/
  bases : List (Tree.Place × List Pattern)
  deriving Repr, DecidableEq

namespace Filter

/-- Why a filter cannot be made. -/
inductive Error where
  | unreadable (fault : Tree.Fault)
  | undecodable
  | pattern (e : Gitignore.Error)
  deriving Repr, DecidableEq

/-- A place and the places above it, the deepest first. -/
def upwards (p : Tree.Place) : List Tree.Place :=
  (List.range (p.length + 1)).reverse.map fun n => p.take n

/-- The nearest directory upwards that holds `.git`. -/
def repository? (t : Tree) (root : Tree.Place) : Option Tree.Place :=
  (upwards root).find? fun p => t.reaches (p ++ [".git"])

/-- The lines of the `.gitignore` file in a directory, none if there is no such file. -/
def linesIn (t : Tree) (p : Tree.Place) : Except Error (List String) :=
  let file := p ++ [".gitignore"]
  if t.reaches file then
    match t.read file with
    | .error fault => .error (.unreadable fault)
    | .ok bytes =>
      match Utf8.decode? bytes with
      | none => .error .undecodable
      | some text => .ok (effectiveLines text)
  else .ok []

/-- The patterns for what is below a directory. -/
def base (t : Tree) (p : Tree.Place) : Except Error (Tree.Place × List Pattern) := do
  let lines ← linesIn t p
  match ofLines (builtinLines ++ lines) with
  | .ok patterns => return (p, patterns)
  | .error e => throw (.pattern e)

/-- The filter for a directory, in which no link stands. -/
def ofTree (t : Tree) (root : Tree.Place) : Except Error Filter := do
  let places := match repository? t root with
    | some p => if p == root then [p] else [p, root]
    | none => [root]
  return ⟨root, ← places.mapM (base t)⟩

/-- Whether a place is ignored: some base lies above it and ignores it. -/
def ignoresPlace (f : Filter) (p : Tree.Place) : Bool :=
  f.bases.any fun (base, patterns) =>
    base.isPrefixOf p &&
      ignores patterns (Path.mk .relative (p.drop base.length)).toString.toList

/-- Whether what a path names is ignored. -/
def ignores (f : Filter) (t : Tree) (path : Path) : Except Tree.Fault Bool := do
  let way := if path.isAbsolute then path.parts else f.root ++ path.parts
  return f.ignoresPlace (← t.resolve way)

end Filter

end LangId.Gitignore
