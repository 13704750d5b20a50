import LangId.Yaml.Scalar

/-!
# The layout of YAML texts

The tokens of a whole text. Indentation opens and closes block collections, and a node turns out to
be a key only when a colon follows it. So each node that may be a key leaves an empty slot in front
of its token, and the colon fills the slot.
-/
namespace LangId.Yaml

/-- A node that may turn out to be a key. -/
structure PossibleKey where
  /-- The slot in front of its token. -/
  slot : Nat
  /-- Whether it has to be a key, since it stands where a block mapping goes on. -/
  required : Bool
  index : Nat
  line : Nat
  column : Nat

/-- The state between two tokens. -/
structure Layout where
  cursor : Cursor
  /-- The tokens found, in slots that hold any number of them. -/
  slots : Array (List Token) := #[]
  /-- How many flow collections are open. -/
  flow : Nat := 0
  /-- The indentation of the innermost block collection, before the first one. -/
  indent : Int := -1
  /-- The indentations around it. -/
  outer : List Int := []
  /-- Whether a key may begin here. -/
  keyAllowed : Bool := true
  /-- The possible key of each open flow collection, and of the block collections under 0. -/
  keys : List (Nat × PossibleKey) := []

namespace Layout

/-- How far a colon may be from the beginning of its key. -/
def keyReach : Nat := 1024

/-- Adds a token. -/
def push (l : Layout) (t : Token) : Layout := { l with slots := l.slots.push [t] }

/-- Forgets the possible key of the innermost collection; refused if it has to be one. -/
def dropKey (l : Layout) : Except Error Layout :=
  match l.keys.lookup l.flow with
  | none => .ok l
  | some k =>
    if k.required then refuse .missingColon
    else .ok { l with keys := l.keys.filter (·.1 != l.flow) }

/-- Whether a possible key is too far behind to be one. -/
def isStale (l : Layout) (k : PossibleKey) : Bool :=
  k.line != l.cursor.line || keyReach < l.cursor.index - k.index

/-- Forgets the keys that are too far behind; refused if one of them has to be a key. -/
def dropStaleKeys (l : Layout) : Except Error Layout :=
  let (stale, live) := l.keys.partition fun k => l.isStale k.2
  if stale.any (·.2.required) then refuse .missingColon else .ok { l with keys := live }

/-- Notes that the next node may be a key. -/
def saveKey (l : Layout) : Except Error Layout := do
  if !l.keyAllowed then return l
  let l ← l.dropKey
  let c := l.cursor
  let key := ⟨l.slots.size, l.flow == 0 && l.indent == c.column, c.index, c.line, c.column⟩
  return { l with slots := l.slots.push [], keys := (l.flow, key) :: l.keys }

/-- Closes the block collections that are indented by more than a column. -/
def unwind (l : Layout) (column : Int) : Layout :=
  if l.flow != 0 then l else go l.outer l.indent l.slots
where
  /-- Closes collections with the given indentations around. -/
  go (outer : List Int) (indent : Int) (slots : Array (List Token)) : Layout :=
    if column < indent then
      match outer with
      | [] => { l with outer := [], indent := -1, slots := slots.push [.blockEnd] }
      | i :: rest => go rest i (slots.push [.blockEnd])
    else { l with outer, indent, slots }

/-- Opens a block collection at a column, if it is indented by more than the one around. -/
def opens (l : Layout) (column : Int) : Bool := decide (l.indent < column)

/-- The layout within a block collection at a column. -/
def enter (l : Layout) (column : Int) : Layout :=
  if l.opens column then { l with outer := l.indent :: l.outer, indent := column } else l

/-- Goes ahead some characters. -/
def ahead (l : Layout) (n : Nat) : Layout := { l with cursor := l.cursor.skip n }

/-- Goes over white space, comments and line ends to the next token. The bound is on the lines. -/
def toToken : Nat → Layout → Layout
  | 0, l => l
  | bound + 1, l =>
    let c := l.cursor.skipSpaces.skipComment
    if c.seesAny isBreak then
      toToken bound
        { l with cursor := c.lineBreak.2, keyAllowed := l.keyAllowed || l.flow == 0 }
    else { l with cursor := c }

/-- Ends all block collections before a document indicator, a directive or the end. -/
def endBlocks (l : Layout) : Except Error Layout := do
  let l ← (l.unwind (-1)).dropKey
  return { l with keyAllowed := false }

/-- Reads a document indicator. -/
def separator (l : Layout) (t : Token) : Except Error Layout := do
  return ((← l.endBlocks).push t).ahead 3

/-- Opens a flow collection. -/
def openFlow (l : Layout) (t : Token) : Except Error Layout := do
  let l ← l.saveKey
  return (({ l with flow := l.flow + 1, keyAllowed := true }).push t).ahead 1

/-- Closes a flow collection. -/
def closeFlow (l : Layout) (t : Token) : Except Error Layout := do
  let l ← l.dropKey
  return (({ l with flow := l.flow - 1, keyAllowed := false }).push t).ahead 1

/-- Reads a comma. -/
def flowEntry (l : Layout) : Except Error Layout := do
  let l ← l.dropKey
  return (({ l with keyAllowed := true }).push .flowEntry).ahead 1

/-- Reads a dash. -/
def blockEntry (l : Layout) : Except Error Layout := do
  let column : Int := l.cursor.column
  if l.flow == 0 && !l.keyAllowed then refuse .entryNotAllowed
  else
    let l := if l.flow == 0 && l.opens column then (l.enter column).push .blockSequenceStart else l
    let l ← ({ l with keyAllowed := true }).dropKey
    return (l.push .blockEntry).ahead 1

/-- Reads a question mark. -/
def explicitKey (l : Layout) : Except Error Layout := do
  let column : Int := l.cursor.column
  if l.flow == 0 && !l.keyAllowed then refuse .keyNotAllowed
  else
    let l := if l.flow == 0 && l.opens column then (l.enter column).push .blockMappingStart else l
    let l ← ({ l with keyAllowed := l.flow == 0 }).dropKey
    return (l.push .key).ahead 1

/-- Reads a colon behind a node that turns out to be a key. -/
def valueOf (l : Layout) (k : PossibleKey) : Layout :=
  let column : Int := k.column
  let starts := l.flow == 0 && l.opens column
  let filled := if starts then [Token.blockMappingStart, .key] else [.key]
  let l := if starts then l.enter column else l
  let l := { l with
    keys := l.keys.filter (·.1 != l.flow)
    slots := l.slots.setIfInBounds k.slot filled
    keyAllowed := false }
  (l.push .value).ahead 1

/-- Reads a colon. -/
def value (l : Layout) : Except Error Layout :=
  match l.keys.lookup l.flow with
  | some k => .ok (l.valueOf k)
  | none =>
    let column : Int := l.cursor.column
    if l.flow == 0 && !l.keyAllowed then refuse .valueNotAllowed
    else do
      let l := if l.flow == 0 && l.opens column then (l.enter column).push .blockMappingStart else l
      let l ← ({ l with keyAllowed := l.flow == 0 }).dropKey
      return (l.push .value).ahead 1

/-- Reads a node that no other key follows at once. -/
def node (l : Layout) (scan : Cursor → Except Error (Token × Cursor)) : Except Error Layout := do
  let l ← l.saveKey
  let (t, behind) ← scan l.cursor
  return { l.push t with cursor := behind, keyAllowed := false }

/-- Reads an anchor or an alias. -/
def name (l : Layout) (make : String → Token) : Except Error Layout :=
  l.node fun c => (scanAnchor c.next).map fun (s, behind) => (make s, behind)

/-- Reads a quoted scalar. -/
def quoted (l : Layout) (double : Bool) : Except Error Layout :=
  l.node fun c => (scanQuoted double (c.rest.length + 2) [] c.next).map fun (s, behind) =>
    (.scalar s false, behind)

/-- Reads a block scalar. -/
def block (l : Layout) (isFolded : Bool) : Except Error Layout := do
  let l ← l.dropKey
  let (s, behind) ← scanBlock isFolded l.indent l.cursor.next
  return { l.push (.scalar s false) with cursor := behind, keyAllowed := true }

/-- Reads a plain scalar. -/
def plain (l : Layout) : Except Error Layout := do
  let l ← l.saveKey
  let s := scanPlain (l.flow != 0) (l.indent + 1) (l.cursor.rest.length + 1) [] [] false l.cursor
  return { l.push (.scalar (String.ofList s.text) true) with
    cursor := s.behind
    keyAllowed := s.broken }

/-- The characters that no plain scalar begins with, unless it is one of the first three with
something joined to it. -/
def isSign (c : Char) : Bool := "-?:,[]\x7b\x7d#&*!|>'\"%@`".toList.contains c

/-- Whether a plain scalar begins here. -/
def startsPlain (l : Layout) : Bool :=
  match l.cursor.peek with
  | none => false
  | some x =>
    if isSpaceOrTab x || isBreak x then false
    else !isSign x ||
      (!l.cursor.atBlank 1 && (x == '-' || (l.flow == 0 && (x == '?' || x == ':'))))

/-- Reads the token that begins with a character. -/
def token (l : Layout) (x : Char) : Except Error Layout :=
  let c := l.cursor
  let apart := l.flow != 0 || c.atBlank 1
  if x == '%' && c.column == 0 then do
    let l ← l.endBlocks
    let (t, behind) ← scanDirective l.cursor
    return { l.push t with cursor := behind }
  else if x == '-' && c.column == 0 && c.atSeparator then l.separator .documentStart
  else if x == '.' && c.column == 0 && c.atSeparator then l.separator .documentEnd
  else if x == '[' then l.openFlow .flowSequenceStart
  else if x == '{' then l.openFlow .flowMappingStart
  else if x == ']' then l.closeFlow .flowSequenceEnd
  else if x == '}' then l.closeFlow .flowMappingEnd
  else if x == ',' then l.flowEntry
  else if x == '-' && c.atBlank 1 then l.blockEntry
  else if x == '?' && apart then l.explicitKey
  else if x == ':' && apart then l.value
  else if x == '*' then l.name .alias
  else if x == '&' then l.name .anchor
  else if x == '!' then l.node scanTag
  else if x == '|' && l.flow == 0 then l.block false
  else if x == '>' && l.flow == 0 then l.block true
  else if x == '\'' then l.quoted false
  else if x == '"' then l.quoted true
  else if l.startsPlain then l.plain
  else refuse .cannotStartToken

/-- Reads all tokens. The bound is on their number. -/
def tokens : Nat → Layout → Except Error (List Token)
  | 0, _ => refuse .cannotStartToken
  | bound + 1, l => do
    let l := l.toToken (l.cursor.rest.length + 1)
    let l ← l.dropStaleKeys
    let l := l.unwind l.cursor.column
    match l.cursor.peek with
    | none => return (← l.endBlocks).slots.toList.flatten
    | some x => tokens bound (← l.token x)

end Layout

/-- Whether a character may stand in a text. -/
def isPrintable (c : Char) : Bool :=
  let n := c.toNat
  n == 9 || n == 10 || n == 13 || (0x20 ≤ n && n ≤ 0x7E) || n == 0x85 || (0xA0 ≤ n && n ≤ 0xD7FF)
    || (0xE000 ≤ n && n ≤ 0xFFFD) || 0x10000 ≤ n

/-- The tokens of a text. A byte order mark at its beginning is passed over. -/
def Token.ofText (text : List Char) : Except Error (List Token) :=
  if text.all isPrintable then
    let start : Cursor := { rest := text }
    let start := if start.sees '\uFEFF' then start.next else start
    Layout.tokens (text.length + 2) { cursor := start }
  else refuse .unprintable

end LangId.Yaml
