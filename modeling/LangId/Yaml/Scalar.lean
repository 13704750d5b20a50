import LangId.Yaml.Token

/-!
# Unquoted YAML scalars

Scalars whose end hangs on the layout: plain ones, which end where a line is indented too little,
and block scalars, whose lines are told by their indentation.
-/
namespace LangId.Yaml

/-- Whether a character parts the items of a flow collection. -/
def isFlowSign (c : Char) : Bool := ",[]\x7b\x7d".toList.contains c

/-- Whether a plain scalar ends before a text: at white space, at a colon with white space behind
it, and within flow collections at their signs. -/
def endsPlain (flow : Bool) : List Char → Bool
  | [] => true
  | c :: rest =>
    if isSpaceOrTab c || isBreak c then true
    else if c == ':' then
      match rest with
      | [] => true
      | d :: _ => isSpaceOrTab d || isBreak d || (flow && isFlowSign d)
    else flow && (isFlowSign c || c == '?')

/-- The characters of a plain scalar up to white space or its end. -/
def plainRun (flow : Bool) : List Char → List Char
  | [] => []
  | c :: rest => if endsPlain flow (c :: rest) then [] else c :: plainRun flow rest

/-- White space within a plain scalar. -/
structure PlainSpace where
  /-- What it stands for; empty if the scalar ends before it. -/
  text : List Char
  /-- Whether it holds the end of a line. -/
  broken : Bool
  behind : Cursor

/-- Reads the spaces and empty lines within a plain scalar, behind the line ends already found, the
latest first; none if a document indicator comes. The bound is on the steps. -/
def plainBreaks : Nat → List (List Char) → Cursor → Option (List Char) × Cursor
  | 0, found, c => (some found.reverse.flatten, c)
  | bound + 1, found, c =>
    if c.sees ' ' then plainBreaks bound found c.next
    else if c.seesAny isBreak then
      let (b, behind) := c.lineBreak
      if behind.atSeparator then (none, behind) else plainBreaks bound (b :: found) behind
    else (some found.reverse.flatten, c)

/-- Reads the white space within a plain scalar. -/
def plainSpace (bound : Nat) (c : Cursor) : PlainSpace :=
  let (blanks, behind) := c.run (· == ' ')
  if behind.seesAny isBreak then
    let (b, behind) := behind.lineBreak
    if behind.atSeparator then ⟨[], true, behind⟩
    else
      match plainBreaks bound [] behind with
      | (some empty, behind) => ⟨folded b empty, true, behind⟩
      | (none, behind) => ⟨[], true, behind⟩
  else ⟨blanks, false, behind⟩

/-- A plain scalar that has been read. -/
structure PlainScalar where
  text : List Char
  /-- Whether the white space behind it holds the end of a line. -/
  broken : Bool
  behind : Cursor

/-- Reads a plain scalar, behind the pieces already found, the latest first. In block collections it
goes on as long as its lines are indented by at least `indent`. The bound is on the steps. -/
def scanPlain (flow : Bool) (indent : Int) :
    Nat → List (List Char) → List Char → Bool → Cursor → PlainScalar
  | 0, found, _, broken, c => ⟨found.reverse.flatten, broken, c⟩
  | bound + 1, found, space, broken, c =>
    let piece := if c.sees '#' then [] else plainRun flow c.rest
    if piece.isEmpty then ⟨found.reverse.flatten, broken, c⟩
    else
      let found := piece :: space :: found
      let s := plainSpace bound (c.skip piece.length)
      if s.text.isEmpty || s.behind.sees '#' || (!flow && (s.behind.column : Int) < indent) then
        ⟨found.reverse.flatten, s.broken, s.behind⟩
      else scanPlain flow indent bound found s.text s.broken s.behind

/-! ## Block scalars -/

/-- What becomes of the line ends at the end of a block scalar. -/
inductive Chomping where
  | strip
  | clip
  | keep
  deriving Repr, DecidableEq

/-- Reads a sign for what becomes of the last line ends. -/
def scanChomping (c : Cursor) : Option Chomping × Cursor :=
  if c.sees '+' then (some .keep, c.next)
  else if c.sees '-' then (some .strip, c.next)
  else (none, c)

/-- Reads a digit that tells the indentation; it may not be zero. -/
def scanIncrement (c : Cursor) : Except Error (Option Nat × Cursor) :=
  match c.peek with
  | some d =>
    if d == '0' then refuse .badBlockHeader
    else if Text.isAsciiDigit d then .ok (some (Number.digitValue d), c.next)
    else .ok (none, c)
  | none => .ok (none, c)

/-- Reads the header of a block scalar: the two signs in either order. -/
def scanBlockHeader (c : Cursor) : Except Error ((Chomping × Option Nat) × Cursor) := do
  let (first, behind) := scanChomping c
  let (increment, behind) ← scanIncrement behind
  let (second, behind) := if first.isNone then scanChomping behind else (first, behind)
  if behind.atSpaceOrBreak then
    return (((if increment.isNone then first else second).getD .clip, increment),
      ← toNextLine .badBlockHeader behind)
  else refuse .badBlockHeader

/-- Reads the empty lines before a block scalar whose indentation is not told, and the largest
column that their spaces reach. The bound is on the steps. -/
def blockIndentation : Nat → List (List Char) → Nat → Cursor → (List Char × Nat) × Cursor
  | 0, found, most, c => ((found.reverse.flatten, most), c)
  | bound + 1, found, most, c =>
    if c.sees ' ' then blockIndentation bound found (max most c.next.column) c.next
    else if c.seesAny isBreak then
      let (b, behind) := c.lineBreak
      blockIndentation bound (b :: found) most behind
    else ((found.reverse.flatten, most), c)

/-- Goes over spaces up to a column. -/
def toColumn (column : Nat) (c : Cursor) : Cursor :=
  c.skip (min (column - c.column) (c.rest.takeWhile (· == ' ')).length)

/-- Reads empty lines within a block scalar and goes to the text of the line behind them. The bound
is on the steps. -/
def blockBreaks (indent : Nat) : Nat → List (List Char) → Cursor → List Char × Cursor
  | 0, found, c => (found.reverse.flatten, c)
  | bound + 1, found, c =>
    let c := toColumn indent c
    if c.seesAny isBreak then
      let (b, behind) := c.lineBreak
      blockBreaks indent bound (b :: found) behind
    else (found.reverse.flatten, c)

/-- The lines of a block scalar: the text, the end of the last line, the empty lines behind it, and
the place behind all. -/
structure BlockLines where
  text : List Char
  lastBreak : List Char
  empty : List Char
  behind : Cursor

/-- Reads the lines of a block scalar, behind the pieces already found, the latest first; `empty`
are the empty lines before the next one. In folded scalars the end of a line between two that do not
begin with white space is a space. The bound is on the steps. -/
def blockLines (isFolded : Bool) (indent : Nat) :
    Nat → List (List Char) → List Char → List Char → Cursor → BlockLines
  | 0, found, lastBreak, empty, c => ⟨found.reverse.flatten, lastBreak, empty, c⟩
  | bound + 1, found, lastBreak, empty, c =>
    if c.column != indent || c.rest.isEmpty then ⟨found.reverse.flatten, lastBreak, empty, c⟩
    else
      let flush := !c.seesAny isSpaceOrTab
      let (text, behind) := c.line_
      let (lineEnd, behind) := behind.lineBreak
      let found := text :: empty :: found
      let (empty, behind) := blockBreaks indent bound [] behind
      if behind.column != indent || behind.rest.isEmpty then
        ⟨found.reverse.flatten, lineEnd, empty, behind⟩
      else
        let joined :=
          if isFolded && lineEnd == ['\n'] && flush && !behind.seesAny isSpaceOrTab then
            if empty.isEmpty then [' '] else []
          else lineEnd
        blockLines isFolded indent bound (joined :: found) [] empty behind

/-- Reads a block scalar behind its sign, within a collection of an indentation. -/
def scanBlock (isFolded : Bool) (outer : Int) (c : Cursor) : Except Error (String × Cursor) := do
  let ((chomping, increment), start) ← scanBlockHeader c
  let bound := start.rest.length + 1
  let least := (max (outer + 1) 1).toNat
  let (empty, indent, start) := match increment with
    | none =>
      let ((empty, most), start) := blockIndentation bound [] 0 start
      (empty, max least most, start)
    | some n =>
      let indent := least + n - 1
      let (empty, start) := blockBreaks indent bound [] start
      (empty, indent, start)
  let lines := blockLines isFolded indent bound [] [] empty start
  let tail := match chomping with
    | .strip => []
    | .clip => lines.lastBreak
    | .keep => lines.lastBreak ++ lines.empty
  return (String.ofList (lines.text ++ tail), lines.behind)

end LangId.Yaml
