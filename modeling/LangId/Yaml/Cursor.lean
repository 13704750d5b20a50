import LangId.Yaml.Fault

/-!
# Places in a YAML text

A cursor holds what is left of a text and says where that begins. The layout of a document hangs on
the column, so every step through the text keeps count.
-/
namespace LangId.Yaml

/-- Whether a character ends a line. -/
def isBreak (c : Char) : Bool :=
  c == '\n' || c == '\r' || c == '\x85' || c == '\u2028' || c == '\u2029'

/-- Whether a character is a space or a tab. -/
def isSpaceOrTab (c : Char) : Bool := c == ' ' || c == '\t'

/-- A place in a text. -/
structure Cursor where
  rest : List Char
  index : Nat := 0
  line : Nat := 0
  column : Nat := 0

namespace Cursor

/-- The character some places ahead, absent at the end. -/
def peek (c : Cursor) (n : Nat := 0) : Option Char := c.rest[n]?

/-- Whether the character some places ahead is a given one. -/
def sees (c : Cursor) (x : Char) (n : Nat := 0) : Bool := c.peek n == some x

/-- Whether the character some places ahead is of a kind. -/
def seesAny (c : Cursor) (p : Char → Bool) (n : Nat := 0) : Bool := (c.peek n).any p

/-- Whether the text ends, a line ends, or there is a space or tab some places ahead. -/
def atBlank (c : Cursor) (n : Nat := 0) : Bool :=
  match c.peek n with
  | none => true
  | some x => isSpaceOrTab x || isBreak x

/-- Whether the text ends, a line ends, or there is a space. -/
def atSpaceOrBreak (c : Cursor) : Bool :=
  match c.peek with
  | none => true
  | some x => x == ' ' || isBreak x

/-- Whether the text or a line ends. -/
def atLineEnd (c : Cursor) : Bool :=
  match c.peek with
  | none => true
  | some x => isBreak x

/-- One character ahead. A byte order mark takes no column. -/
def next (c : Cursor) : Cursor :=
  match c.rest with
  | [] => c
  | x :: rest =>
    if x == '\n' || x == '\x85' || x == '\u2028' || x == '\u2029'
        || (x == '\r' && rest.head? != some '\n') then
      ⟨rest, c.index + 1, c.line + 1, 0⟩
    else ⟨rest, c.index + 1, c.line, if x == '\uFEFF' then c.column else c.column + 1⟩

/-- Some characters ahead. -/
def skip (c : Cursor) : Nat → Cursor
  | 0 => c
  | n + 1 => c.next.skip n

/-- Behind the characters of a kind. -/
def skipWhile (p : Char → Bool) (c : Cursor) : Cursor := c.skip (c.rest.takeWhile p).length

/-- The characters of a kind, and the place behind them. -/
def run (p : Char → Bool) (c : Cursor) : List Char × Cursor := (c.rest.takeWhile p, c.skipWhile p)

/-- Behind the spaces. -/
def skipSpaces (c : Cursor) : Cursor := c.skipWhile (· == ' ')

/-- The characters up to the end of the line, and the place of its end. -/
def line_ (c : Cursor) : List Char × Cursor := c.run (!isBreak ·)

/-- Behind a comment, if one begins here. -/
def skipComment (c : Cursor) : Cursor := if c.sees '#' then c.line_.2 else c

/-- The end of a line as a text holds it, and the place behind it. Line and paragraph separators
are kept, all other ends become line feeds. -/
def lineBreak (c : Cursor) : List Char × Cursor :=
  match c.rest with
  | '\r' :: '\n' :: _ => (['\n'], c.skip 2)
  | x :: _ =>
    if x == '\u2028' || x == '\u2029' then ([x], c.next)
    else if isBreak x then (['\n'], c.next)
    else ([], c)
  | [] => ([], c)

/-- Whether a document indicator stands here: three dashes or three dots, and nothing joined. -/
def atSeparator (c : Cursor) : Bool :=
  match c.rest with
  | '-' :: '-' :: '-' :: _ => c.atBlank 3
  | '.' :: '.' :: '.' :: _ => c.atBlank 3
  | _ => false

end Cursor

end LangId.Yaml
