import LangId.Text.Quoted
import LangId.Tree

/-!
# Providers of content

Where the contents of files come from, given their paths. Content that cannot be had is an error
with a cause and a message.
-/
namespace LangId

/-- The first octets of a file, and the size of all of it. -/
structure Content where
  bytes : List UInt8
  size : Int
  deriving Repr, DecidableEq

/-- The whole content of a file. -/
def Content.whole (bytes : List UInt8) : Content := ⟨bytes, bytes.length⟩

/-- Why a content cannot be had. -/
structure Unreadable where
  path : String
  message : String
  /-- What is wrong in a directory tree. Its words come behind the message. -/
  fault : Option Tree.Fault := none
  deriving Repr, DecidableEq

/-- A source of contents. -/
abbrev Provider := String → Except Unreadable Content

namespace Provider

/-- The words for a path that cannot be read. -/
def cannotRead (path : String) : String := s!"Cannot read {path}: "

/-- Reads below a directory of a tree; of each file no more octets than a bound. -/
def ofTree (t : Tree) (root : Path) (bound : Nat) : Provider := fun path =>
  let full := root.join (Path.ofString path)
  match t.read full.parts with
  | .ok bytes => .ok ⟨bytes.take bound, bytes.length⟩
  | .error fault => .error ⟨path, cannotRead full.toString, some fault⟩

/-- Looks contents up by their paths. -/
def ofContents (contents : List (String × List UInt8)) : Provider := fun path =>
  match contents.lookup path with
  | some bytes => .ok (Content.whole bytes)
  | none => .error { path, message := cannotRead path ++ Text.quoted path }

end Provider

end LangId
