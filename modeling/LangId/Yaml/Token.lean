import LangId.Yaml.Cursor
import LangId.Text.Digit
import LangId.Text.Utf8
import LangId.Number.Decimal

/-!
# YAML tokens

The tokens of a YAML text that can be read without regard to the layout around them: directives,
anchors, aliases, tags, and quoted scalars.
-/
namespace LangId.Yaml

open Text

/-- A directive at the beginning of a document. -/
inductive Directive where
  | version (major : Nat)
  | handle (name tag : String)
  | other
  deriving Repr, DecidableEq

/-- A token. -/
inductive Token where
  | directive (d : Directive)
  | documentStart
  | documentEnd
  | blockSequenceStart
  | blockMappingStart
  | blockEnd
  | flowSequenceStart
  | flowSequenceEnd
  | flowMappingStart
  | flowMappingEnd
  | blockEntry
  | flowEntry
  | key
  | value
  | alias (name : String)
  | anchor (name : String)
  /-- A tag; without a handle it is meant as it stands. -/
  | tag (handle : Option String) (tail : String)
  /-- A scalar; a plain one stands without quotes. -/
  | scalar (text : String) (plain : Bool)
  deriving Repr, DecidableEq

/-- Refuses a text. -/
def refuse {α : Type} (f : Fault) : Except Error α := .error (.malformed f)

/-- Whether a character may stand in the name of an anchor, a handle or a directive. -/
def isNameChar (c : Char) : Bool := isAsciiLetter c || isAsciiDigit c || c == '-' || c == '_'

/-- Reads a name. -/
def scanName (c : Cursor) : Except Error (String × Cursor) :=
  let (name, behind) := c.run isNameChar
  if name.isEmpty then refuse .badName else .ok (String.ofList name, behind)

/-- Reads the name of an anchor or alias behind its sign. -/
def scanAnchor (c : Cursor) : Except Error (String × Cursor) := do
  let (name, behind) ← scanName c
  if behind.atBlank || behind.seesAny "?:,]\x7d%@`".toList.contains then return (name, behind)
  else refuse .badName

/-- Whether a character may stand in the address of a tag. -/
def isTagChar (c : Char) : Bool :=
  isAsciiLetter c || isAsciiDigit c || "-;/?:@&=+$,_.!~*'()[]%".toList.contains c

/-- Reads octets written with percent signs, behind those already found. -/
def percentOctets? : List Char → List UInt8 → Option (List UInt8 × List Char)
  | '%' :: a :: b :: rest, found =>
    match hexValue? a, hexValue? b with
    | some x, some y => percentOctets? rest (UInt8.ofNat (16 * x + y) :: found)
    | _, _ => none
  | '%' :: _, _ => none
  | rest, found => some (found.reverse, rest)

/-- Writes out the octets of an address; none if they are no text. The length bounds the steps. -/
def plainAddress? : Nat → List Char → Option (List Char)
  | _, [] => some []
  | 0, _ => none
  | bound + 1, c :: rest =>
    if c == '%' then do
      let (octets, rest) ← percentOctets? (c :: rest) []
      return (← Utf8.decode? octets) ++ (← plainAddress? bound rest)
    else (plainAddress? bound rest).map (c :: ·)

/-- Reads the address of a tag. -/
def scanAddress (c : Cursor) : Except Error (String × Cursor) :=
  let (chars, behind) := c.run isTagChar
  match plainAddress? chars.length chars with
  | some address =>
    if chars.isEmpty then refuse .badTag else .ok (String.ofList address, behind)
  | none => refuse .badTag

/-- Reads a handle: an exclamation mark, or a name between two of them. -/
def scanHandle (c : Cursor) : Except Error (String × Cursor) :=
  if !c.sees '!' then refuse .badTag
  else if c.sees ' ' 1 then .ok ("!", c.next)
  else
    let (name, behind) := c.next.run isNameChar
    if behind.sees '!' then .ok (String.ofList ('!' :: name ++ ['!']), behind.next)
    else refuse .badTag

/-- Whether a tag has a handle of its own: a second exclamation mark. -/
def hasHandle (c : Cursor) : Bool :=
  (c.next.rest.takeWhile fun x => x != ' ' && !isBreak x).contains '!'

/-- Reads a tag. -/
def scanTag (c : Cursor) : Except Error (Token × Cursor) := do
  let (token, behind) ←
    if c.sees '<' 1 then do
      let (address, behind) ← scanAddress (c.skip 2)
      if behind.sees '>' then pure (Token.tag none address, behind.next) else refuse .badTag
    else if c.atBlank 1 then pure (Token.tag none "!", c.next)
    else if hasHandle c then do
      let (handle, behind) ← scanHandle c
      let (address, behind) ← scanAddress behind
      pure (Token.tag (some handle) address, behind)
    else do
      let (address, behind) ← scanAddress c.next
      pure (Token.tag (some "!") address, behind)
  if behind.atSpaceOrBreak then return (token, behind) else refuse .badTag

/-- Reads the number of a version. -/
def scanVersionNumber (c : Cursor) : Except Error (Nat × Cursor) :=
  let (ds, behind) := c.run isAsciiDigit
  if ds.isEmpty then refuse .badDirective else .ok (Number.natOf ds, behind)

/-- Reads what a directive says, behind its name. -/
def scanDirectiveBody (name : String) (c : Cursor) : Except Error (Directive × Cursor) :=
  if name == "YAML" then do
    let (major, behind) ← scanVersionNumber c.skipSpaces
    if !behind.sees '.' then refuse .badDirective
    else
      let (_, behind) ← scanVersionNumber behind.next
      if behind.atSpaceOrBreak then return (.version major, behind) else refuse .badDirective
  else if name == "TAG" then do
    let (handle, behind) ← scanHandle c.skipSpaces
    if !behind.sees ' ' then refuse .badDirective
    else
      let (tag, behind) ← scanAddress behind.skipSpaces
      if behind.atSpaceOrBreak then return (.handle handle tag, behind) else refuse .badDirective
  else .ok (.other, c.line_.2)

/-- Goes to the next line, over spaces and a comment; refused if anything else stands before it. -/
def toNextLine (f : Fault) (c : Cursor) : Except Error Cursor :=
  let behind := c.skipSpaces.skipComment
  if behind.atLineEnd then .ok behind.lineBreak.2 else refuse f

/-- Reads a directive. -/
def scanDirective (c : Cursor) : Except Error (Token × Cursor) := do
  let (name, behind) ← scanName c.next
  if !behind.atSpaceOrBreak then refuse .badDirective
  else
    let (d, behind) ← scanDirectiveBody name behind
    return (.directive d, ← toNextLine .badDirective behind)

/-! ## Quoted scalars -/

/-- What a single character behind a backslash stands for. -/
def escaped? : Char → Option Char
  | '0' => some '\x00'
  | 'a' => some '\x07'
  | 'b' => some '\x08'
  | 't' => some '\t'
  | '\t' => some '\t'
  | 'n' => some '\n'
  | 'v' => some '\x0b'
  | 'f' => some '\x0c'
  | 'r' => some '\r'
  | 'e' => some '\x1b'
  | ' ' => some ' '
  | '"' => some '"'
  | '\\' => some '\\'
  | '/' => some '/'
  | 'N' => some '\x85'
  | '_' => some '\xa0'
  | 'L' => some '\u2028'
  | 'P' => some '\u2029'
  | _ => none

/-- How many hexadecimal digits follow an escape. -/
def escapeDigits? : Char → Option Nat
  | 'x' => some 2
  | 'u' => some 4
  | 'U' => some 8
  | _ => none

/-- Reads the code point of an escape. -/
def scanCode (digits : Nat) (c : Cursor) : Except Error (Char × Cursor) :=
  match (c.rest.take digits).mapM hexValue? with
  | none => refuse .badEscape
  | some values =>
    if values.length < digits then refuse .badEscape
    else
      let n := ofDigits 16 values
      if 0x7FFFFFFF < n then .error (.oversight .codePoint)
      else if 0x10FFFF < n then .error (.noSuchValue "chr() arg not in range(0x110000)")
      else .ok (Char.ofNat n, c.skip digits)

/-- Reads the empty lines within a quoted scalar, behind those already found, the latest first, and
goes to the text behind. A document indicator may not stand there. The bound is on the steps. -/
def scanQuotedBreaks : Nat → List (List Char) → Cursor → Except Error (List Char × Cursor)
  | 0, _, _ => refuse .openQuote
  | bound + 1, found, c =>
    if c.atSeparator then refuse .separatorInQuote
    else
      let c := c.skipWhile isSpaceOrTab
      if c.seesAny isBreak then
        let (b, behind) := c.lineBreak
        scanQuotedBreaks bound (b :: found) behind
      else .ok (found.reverse.flatten, c)

/-- What the end of a line within a scalar stands for: a line feed that nothing follows is a space,
and one before empty lines is dropped. -/
def folded (lineEnd empty : List Char) : List Char :=
  if lineEnd != ['\n'] then lineEnd ++ empty
  else if empty.isEmpty then [' ']
  else empty

/-- Reads the white space within a quoted scalar. -/
def scanQuotedSpaces (bound : Nat) (c : Cursor) : Except Error (List Char × Cursor) :=
  let (blanks, behind) := c.run isSpaceOrTab
  match behind.peek with
  | none => refuse .openQuote
  | some x =>
    if isBreak x then do
      let (b, behind) := behind.lineBreak
      let (empty, behind) ← scanQuotedBreaks bound [] behind
      return (folded b empty, behind)
    else .ok (blanks, behind)

/-- Whether a character stands for itself within any quotes. -/
def isQuotedChar (x : Char) : Bool :=
  !(x == '\'' || x == '"' || x == '\\' || isSpaceOrTab x || isBreak x)

/-- Reads an escape, behind its backslash. -/
def scanEscape (bound : Nat) (c : Cursor) : Except Error (List Char × Cursor) :=
  match c.peek with
  | none => refuse .badEscape
  | some x =>
    match escaped? x, escapeDigits? x with
    | some y, _ => .ok ([y], c.next)
    | none, some digits => do
      let (y, behind) ← scanCode digits c.next
      return ([y], behind)
    | none, none =>
      if isBreak x then scanQuotedBreaks bound [] c.lineBreak.2 else refuse .badEscape

/-- Reads a quoted scalar up to its closing quote, behind what has been found, the latest piece
first. The bound is on the steps. -/
def scanQuoted (double : Bool) : Nat → List (List Char) → Cursor → Except Error (String × Cursor)
  | 0, _, _ => refuse .openQuote
  | bound + 1, found, c =>
    let quote := if double then '"' else '\''
    match c.peek with
    | none => refuse .openQuote
    | some x =>
      if isQuotedChar x then
        let (piece, behind) := c.run isQuotedChar
        scanQuoted double bound (piece :: found) behind
      else if isSpaceOrTab x || isBreak x then
        match scanQuotedSpaces bound c with
        | .ok (piece, behind) => scanQuoted double bound (piece :: found) behind
        | .error e => .error e
      else if !double && x == '\'' && c.sees '\'' 1 then
        scanQuoted double bound (['\''] :: found) (c.skip 2)
      else if x == quote then .ok (String.ofList found.reverse.flatten, c.next)
      else if double && x == '\\' then
        match scanEscape bound c.next with
        | .ok (piece, behind) => scanQuoted double bound (piece :: found) behind
        | .error e => .error e
      else scanQuoted double bound ([x] :: found) c.next

end LangId.Yaml
