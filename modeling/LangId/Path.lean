import LangId.Text.Lines

/-!
# Paths

Paths with forward slashes, taken apart into components. Empty components and `.` carry no
information and are dropped when a path is read; `..` is kept, since a link may stand before it.
-/
namespace LangId

open Text

/-- What a path begins with. Two slashes, unlike one or three, are kept apart. -/
inductive Anchoring where
  | relative
  | absolute
  | doubleSlash
  deriving Repr, DecidableEq

/-- A path as a list of components. -/
structure Path where
  anchoring : Anchoring
  parts : List String
  deriving Repr, DecidableEq

namespace Path

/-- The components of a text: what stands between slashes, without empty pieces and `.`. -/
def components (s : List Char) : List String :=
  ((splitOn '/' s).filter fun piece => !piece.isEmpty && piece != ['.']).map String.ofList

/-- Reads what a path begins with. -/
def anchoringOf : List Char → Anchoring
  | '/' :: '/' :: '/' :: _ => .absolute
  | '/' :: '/' :: _ => .doubleSlash
  | '/' :: _ => .absolute
  | _ => .relative

/-- Reads a path. -/
def ofString (s : String) : Path := ⟨anchoringOf s.toList, components s.toList⟩

/-- Writes a path; the one without components is `.`. -/
def toString (p : Path) : String :=
  let body := "/".intercalate p.parts
  match p.anchoring with
  | .relative => if p.parts.isEmpty then "." else body
  | .absolute => "/" ++ body
  | .doubleSlash => "//" ++ body

/-- The last component, empty if there is none. -/
def name (p : Path) : String := p.parts.getLastD ""

/-- Whether a path does not depend on the place that it is looked at from. -/
def isAbsolute (p : Path) : Bool := p.anchoring != .relative

/-- A path seen from another one; an absolute path is its own. -/
def join (base p : Path) : Path :=
  if p.isAbsolute then p else { base with parts := base.parts ++ p.parts }

/-- Removes `..` together with the component before it; at the top it is dropped. -/
def withoutDots (parts : List String) : List String :=
  (parts.foldl (fun found part => if part == ".." then found.drop 1 else part :: found) []).reverse

/-- An absolute path in which no component is a link. -/
def resolved (p : Path) : Path := ⟨.absolute, withoutDots p.parts⟩

/-- The way from a directory down to a path below it. -/
def relativeTo? (p base : Path) : Option Path :=
  if p.anchoring == base.anchoring && base.parts.isPrefixOf p.parts then
    some ⟨.relative, p.parts.drop base.parts.length⟩
  else none

/-- Removes `./` from the beginning of a text, as often as it stands there. -/
def dropHere : List Char → List Char
  | '.' :: '/' :: rest => dropHere rest
  | s => s

/-- Writes forward slashes for backslashes. -/
def forwardSlashes (s : List Char) : List Char := s.map fun c => if c == '\\' then '/' else c

/-- The spelling of a path that rules and reports use: forward slashes, and no `./` in front. -/
def canonical (s : String) : String := String.ofList (dropHere (forwardSlashes s.toList))

/-- The spelling of a file's path as seen from a root, both without links. What is not below the
root keeps its path. -/
def canonicalFrom (root file : Path) : String :=
  if file.isAbsolute then
    match file.resolved.relativeTo? root.resolved with
    | some below => canonical below.toString
    | none => canonical file.toString
  else canonical file.toString

/-- The last component of a path given as text. -/
def nameOf (s : String) : String := (ofString s).name

end Path

end LangId
