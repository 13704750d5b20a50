import LangId.Path
import LangId.Text.Order

/-!
# Directory trees

A tree of directories, files and links, seen from its top. A place is a list of names from the top
down; a way to it may lead through links and through `..`, which leaves the directory that has been
reached, not the one that is written before it.
-/
namespace LangId

/-- A directory tree. The entries of a directory stand in no particular order. -/
inductive Tree where
  | file (bytes : List UInt8)
  /-- A link with the text of the path that it leads to. -/
  | link (target : String)
  | directory (entries : List (String × Tree))
  deriving Repr

namespace Tree

/-- Why a place cannot be reached or read. -/
inductive Fault where
  | missing
  | notDirectory
  | isDirectory
  | tooManyLinks
  deriving Repr, DecidableEq

/-- Names from the top of a tree down. -/
abbrev Place := List String

/-- An entry of a directory. -/
def entry? (t : Tree) (name : String) : Option Tree :=
  match t with
  | .directory entries => entries.lookup name
  | _ => none

/-- What stands at a place, through directories only. -/
def at? (t : Tree) : Place → Option Tree
  | [] => some t
  | name :: rest => (t.entry? name).bind fun e => e.at? rest

/-- A tree without entries. -/
def empty : Tree := .directory []

/-- Puts an entry into a directory; of two with the same name the later one stays. -/
def put (t : Tree) (name : String) (e : Tree) : Tree :=
  match t with
  | .directory entries => .directory ((entries.filter (·.1 != name)) ++ [(name, e)])
  | t => t

/-- Puts something at a place and makes the directories above it. What is a directory already
stays one. -/
def insert : Tree → Place → Tree → Tree
  | .directory entries, [], .directory [] => .directory entries
  | _, [], e => e
  | t, name :: rest, e => t.put name (insert ((t.entry? name).getD empty) rest e)

/-- How many links may stand in one way. -/
def maxLinks : Nat := 40

/-- The names that a link adds to a way, and the place from which it leads on. -/
def redirect (target : String) (here : Place) : Place × List String :=
  let p := Path.ofString target
  (if p.isAbsolute then [] else here, p.parts)

/-- Goes a way from a directory and tells the place that it leads to. `onward` goes on behind a
link. -/
def goWith (t : Tree) (onward : Place → List String → Except Fault Place) (here : Place) :
    List String → Except Fault Place
  | [] => .ok here
  | ".." :: rest => goWith t onward here.dropLast rest
  | name :: rest =>
    match t.at? (here ++ [name]) with
    | none => .error .missing
    | some (.link target) =>
      let (start, way) := redirect target here
      onward start (way ++ rest)
    | some (.directory _) => goWith t onward (here ++ [name]) rest
    | some (.file _) => if rest.isEmpty then .ok (here ++ [name]) else .error .notDirectory

/-- Goes a way with no more than a number of links in it. -/
def go (t : Tree) : Nat → Place → List String → Except Fault Place
  | 0 => goWith t fun _ _ => .error .tooManyLinks
  | links + 1 => goWith t (go t links)

/-- The place that a way from the top leads to. -/
def locate (t : Tree) (way : List String) : Except Fault Place := go t maxLinks [] way

/-- What a way from the top leads to. -/
def find (t : Tree) (way : List String) : Except Fault Tree := do
  match t.at? (← t.locate way) with
  | some found => return found
  | none => throw .missing

/-- Whether a way leads to something. -/
def reaches (t : Tree) (way : List String) : Bool :=
  match t.find way with
  | .ok _ => true
  | .error _ => false

/-- The octets of the file that a way leads to. -/
def read (t : Tree) (way : List String) : Except Fault (List UInt8) := do
  match ← t.find way with
  | .file bytes => return bytes
  | _ => throw .isDirectory

/-- Replaces all links in a way; names that are not there are kept. `inner` replaces those in the
target of a link. -/
def resolveWith (t : Tree) (inner : Place → List String → Except Fault Place) (here : Place) :
    List String → Except Fault Place
  | [] => .ok here
  | ".." :: rest => resolveWith t inner here.dropLast rest
  | name :: rest =>
    match t.at? (here ++ [name]) with
    | some (.link target) =>
      let (start, way) := redirect target here
      match inner start way with
      | .ok place => resolveWith t inner place rest
      | .error f => .error f
    | _ => resolveWith t inner (here ++ [name]) rest

/-- Replaces links up to a depth of links in the targets of links. -/
def resolveWithin (t : Tree) : Nat → Place → List String → Except Fault Place
  | 0 => resolveWith t fun _ _ => .error .tooManyLinks
  | depth + 1 => resolveWith t (resolveWithin t depth)

mutual

/-- The number of links in a tree. -/
def links : Tree → Nat
  | .file _ => 0
  | .link _ => 1
  | .directory entries => linksBelow entries

/-- The number of links in some entries. -/
def linksBelow : List (String × Tree) → Nat
  | [] => 0
  | (_, e) :: rest => links e + linksBelow rest

end

/-- The place that a way from the top names, in which no link is left. Only links that go round in a
circle are nested deeper than there are links. -/
def resolve (t : Tree) (way : List String) : Except Fault Place := resolveWithin t t.links [] way

/-- The text of a place. -/
def placeText (p : Place) : String := (Path.mk .absolute p).toString

end Tree

end LangId
