import LangId.Path
import LangId.Text.Lower
import LangId.Text.Utf8

/-!
# Samples

What identification sees of a file: its path, and the text of its first octets.
-/
namespace LangId

open Text

/-- A path with a bounded sample of the content behind it. -/
structure Sample where
  /-- The path with forward slashes. -/
  path : String
  content : List Char
  /-- The number of octets of the whole file. -/
  size : Int
  /-- Whether the sample holds a zero octet near its beginning. -/
  isBinary : Bool := false
  deriving Repr, DecidableEq

namespace Sample

/-- How many octets are searched for a zero octet. -/
def sniffedBytes : Nat := 8000

/-- The sample of a file, given its first octets, the bound on the sample, and the size of the
file if the octets are not all of it. -/
def ofBytes (path : String) (bytes : List UInt8) (bound : Nat) (size : Option Int := none) :
    Sample where
  path := String.ofList (Path.forwardSlashes path.toList)
  content := Utf8.decodeLossy (bytes.take bound)
  size := size.getD bytes.length
  isBinary := ((bytes.take bound).take sniffedBytes).contains 0

/-- The name of the file. -/
def basename (s : Sample) : String := Path.nameOf s.path

/-- The texts that begin at a dot, the longest first. -/
def dottedSuffixes : List Char → List (List Char)
  | [] => []
  | c :: rest => if c == '.' then (c :: rest) :: dottedSuffixes rest else dottedSuffixes rest

/-- The extensions of a file name: its lower-case suffixes that begin at a dot, the longest first.
A name that ends in a dot has none. -/
def extensionsOf (basename : String) : List String :=
  let suffixes := dottedSuffixes (lowerChars basename.toList)
  (suffixes.filter fun s => s.getLast? != some '.').map String.ofList

/-- The extensions of the file. -/
def extensions (s : Sample) : List String := extensionsOf s.basename

/-- The lines of the content. -/
def lines (s : Sample) : List (List Char) := Text.lines s.content

/-- The first line of the content, empty if there is none. -/
def firstLine (s : Sample) : List Char := s.lines.headD []

end Sample

end LangId
