import LangId.Regex.Build
import LangId.Regex.Parser
import LangId.Text.Blank
import LangId.Text.Lines

/-!
# Ignore patterns

The pattern language of `.gitignore` files. A line is cut at its slashes into segments; a segment
is `**`, `*`, or a glob. Normalising the segments makes plain what the position of the slashes
says: a pattern with no slash but at its end matches at any depth, and one with a slash at its end
matches what lies below a directory.
-/
namespace LangId.Gitignore

open Regex Text

/-- Why a line cannot be read. -/
inductive Error where
  /-- The line says nothing behind its `!`, or ends in a backslash. -/
  | invalid (line : String)
  /-- A bracket expression is malformed. -/
  | bracket (fault : Regex.Error)
  deriving Repr, DecidableEq

/-- A unit of a segment. -/
inductive Glob where
  | char (c : Char)
  /-- One character but the slash. -/
  | anyOne
  /-- Any characters but the slash. -/
  | anyRun
  | bracket (text : List Char)
  deriving Repr, DecidableEq

/-- The text of a bracket expression up to its closing bracket, and what stands behind. A bracket
that closes at once is a member. -/
def bracketBody? (s : List Char) : Option (List Char × List Char) :=
  let (lead, s) := match s with
    | c :: rest => if c == '!' || c == '^' then ([c], rest) else ([], s)
    | [] => ([], s)
  let (first, s) := match s with
    | ']' :: rest => ([']'], rest)
    | _ => ([], s)
  match s.span (· != ']') with
  | (body, _ :: rest) => some (lead ++ first ++ body, rest)
  | (_, []) => none

/-- The units of a segment; none if it ends in a backslash. Each step shortens the text, whose
length bounds the steps. -/
def globs : Nat → List Char → Option (List Glob)
  | _, [] => some []
  | 0, _ => none
  | bound + 1, c :: rest =>
    if c == '\\' then
      match rest with
      | [] => none
      | d :: rest => (globs bound rest).map (.char d :: ·)
    else if c == '*' then (globs bound rest).map (.anyRun :: ·)
    else if c == '?' then (globs bound rest).map (.anyOne :: ·)
    else if c == '[' then
      match bracketBody? rest with
      | some (body, rest) => (globs bound rest).map (.bracket body :: ·)
      | none => (globs bound rest).map (.char '[' :: ·)
    else (globs bound rest).map (.char c :: ·)

/-- The class that a bracket expression stands for. `!` negates as `^` does, and a backslash is a
member like any other. -/
def bracketNode (body : List Char) : Except Regex.Error Node :=
  let body := match body with
    | '!' :: rest => '^' :: rest
    | _ => body
  let escaped := body.flatMap fun c => if c == '\\' then ['\\', '\\'] else [c]
  parse {} ('[' :: escaped ++ [']'])

/-- One character but the slash. -/
def notSlash : Node := Node.noneOf .none [.char 47]

/-- The pattern of a unit. -/
def Glob.node : Glob → Except Regex.Error Node
  | .char c => .ok (Node.char .none c)
  | .anyOne => .ok notSlash
  | .anyRun => .ok (Node.many notSlash)
  | .bracket body => bracketNode body

/-- A piece of a line between slashes. -/
inductive Segment where
  /-- `**`: any number of directories. -/
  | anyDepth
  /-- `*`: a whole name. -/
  | anyName
  | glob (units : List Glob)
  deriving Repr, DecidableEq

/-- Reads a segment; none if it ends in a backslash. -/
def Segment.read? (s : List Char) : Option Segment :=
  if s == ['*', '*'] then some .anyDepth
  else if s == ['*'] then some .anyName
  else (globs s.length s).map .glob

/-- Joins neighbouring `**` into one. -/
def collapse : List (List Char) → List (List Char)
  | [] => []
  | s :: rest =>
    match collapse rest with
    | [] => [s]
    | t :: more =>
      if s == ['*', '*'] && t == ['*', '*'] then t :: more else s :: t :: more

/-- Makes plain at which depth the segments match: an empty first one anchors them, a single one
gets `**` in front, and an empty last one becomes `**`. -/
def normalize (segments : List (List Char)) : List (List Char) :=
  let anchored := match segments with
    | [] => []
    | first :: rest =>
      if first.isEmpty then rest
      else if (rest.isEmpty || rest == [[]]) && first != ['*', '*'] then
        ['*', '*'] :: first :: rest
      else first :: rest
  let closed := match anchored.getLast? with
    | some [] => anchored.dropLast ++ [['*', '*']]
    | _ => anchored
  collapse closed

/-- The patterns of the segments; `first` says whether none stands before, `slash` whether a slash
is due before the next name. -/
def segmentNodes : Bool → Bool → List Segment → Except Regex.Error (List Node)
  | _, _, [] => .ok []
  | first, slash, s :: rest => do
    let last := rest.isEmpty
    match s with
    | .anyDepth =>
      if first then
        return .anchor .textStart
          :: Node.optional (.seq (Node.some (.one .anyInLine)) (Node.char .none '/'))
          :: (← segmentNodes false false rest)
      else if last then return [Node.char .none '/']
      else
        return Node.optional (.seq (Node.char .none '/') (Node.some (.one .anyInLine)))
          :: (← segmentNodes false true rest)
    | .anyName =>
      return lead first slash ++ [Node.some notSlash]
        ++ (if last then [Node.optional (Node.char .none '/'), .anchor .finalLineEnd] else [])
        ++ (← segmentNodes false true rest)
    | .glob units =>
      return lead first slash ++ (← units.mapM Glob.node)
        ++ (if last then [.alt (Node.char .none '/') (.anchor .finalLineEnd)] else [])
        ++ (← segmentNodes false true rest)
where
  /-- What stands before a name. -/
  lead (first slash : Bool) : List Node :=
    (if first then [.anchor .textStart] else [])
      ++ (if slash then [Node.char .none '/'] else [])

/-- A line that says something: whether what it matches is ignored, and the pattern. -/
structure Pattern where
  ignores : Bool
  node : Node
  deriving Repr, DecidableEq

/-- The pattern of normalised segments. Three of them have a short form: `**` and `**/*` match
every path, `**/*/**` every path with a slash. -/
def nodeOf (line : String) (directory : Bool) (segments : List (List Char)) :
    Except Error Node :=
  match segments with
  | [] => .error (.invalid line)
  | [['*', '*']] => .ok (if directory then Node.char .none '/' else .one .anyInLine)
  | [['*', '*'], ['*']] => .ok (.one .anyInLine)
  | [['*', '*'], ['*'], ['*', '*']] => .ok (Node.char .none '/')
  | _ =>
    match segments.mapM Segment.read? with
    | none => .error (.invalid line)
    | some segments =>
      match segmentNodes true false segments with
      | .ok nodes => .ok (.seqAll nodes)
      | .error fault => .error (.bracket fault)

/-- Removes white space at the end of a line, unless a backslash stands before its last space. -/
def withoutTrailingBlanks (line : List Char) : List Char :=
  match line.reverse with
  | ' ' :: '\\' :: _ => line
  | _ => trimRight line

/-- Reads a line. Blank lines and comments say nothing. -/
def Pattern.ofLine (line : String) : Except Error (Option Pattern) :=
  let text := withoutTrailingBlanks line.toList
  match text with
  | [] => .ok none
  | '#' :: _ => .ok none
  | c :: rest =>
    let body := if c == '!' then rest else text
    let segments := splitOn '/' body
    let directory := segments.getLast? == some [] && body != ['/']
    (nodeOf line directory (normalize segments)).map fun node => some ⟨c != '!', node⟩

/-- A path as patterns see it: relative, even if it is written with a slash in front. -/
def seenPath : List Char → List Char
  | '/' :: rest => rest
  | '.' :: '/' :: rest => rest
  | s => s

/-- Whether a pattern matches a path. -/
def Pattern.accepts (p : Pattern) (path : List Char) : Bool :=
  (p.node.search (seenPath path)).isSome

/-- Reads the lines of a file. -/
def ofLines (lines : List String) : Except Error (List Pattern) :=
  (lines.mapM Pattern.ofLine).map fun found => found.filterMap id

/-- Whether a list of patterns ignores a path: the last pattern that matches decides. -/
def ignores (patterns : List Pattern) (path : List Char) : Bool :=
  (patterns.reverse.find? (·.accepts path)).any (·.ignores)

end LangId.Gitignore
