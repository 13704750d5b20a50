import LangId.Regex.Fault
import LangId.Regex.Node
import LangId.Text.Identifier

/-!
# Reading a pattern

From the text of a pattern to its tree. The reader works on tokens, which are characters and
escaped characters, and carries the flags in force with it, so that the tree it returns needs none.
Each function takes a bound on its steps; the number of tokens bounds the depth of any reading, so
`parse` never meets the bound.
-/
namespace LangId.Regex

open LangId.Text

/-- The flags that decide how a pattern is read. -/
structure Flags where
  ignoreCase : Bool := false
  /-- Line anchors hold at every line, not only at the ends of the text. -/
  multiline : Bool := false
  /-- The dot accepts line feeds. -/
  dotAll : Bool := false
  /-- White space and comments between the parts of the pattern are skipped. -/
  verbose : Bool := false
  /-- Categories and cases are those of ASCII. -/
  ascii : Bool := false
  /-- Categories and cases are said to be those of all scripts. -/
  unicode : Bool := false
  /-- No repetition is allowed. -/
  template : Bool := false
  deriving Repr, DecidableEq

/-- Flags of which either side has set one. -/
def Flags.union (a b : Flags) : Flags where
  ignoreCase := a.ignoreCase || b.ignoreCase
  multiline := a.multiline || b.multiline
  dotAll := a.dotAll || b.dotAll
  verbose := a.verbose || b.verbose
  ascii := a.ascii || b.ascii
  unicode := a.unicode || b.unicode
  template := a.template || b.template

/-- Flags with some switched on, then some off. A choice between the tables replaces the one in
force. -/
def Flags.adjust (flags on off : Flags) : Flags :=
  let chosen := if on.ascii || on.unicode then { flags with ascii := false, unicode := false }
    else flags
  let all := chosen.union on
  { all with
    ignoreCase := all.ignoreCase && !off.ignoreCase
    multiline := all.multiline && !off.multiline
    dotAll := all.dotAll && !off.dotAll
    verbose := all.verbose && !off.verbose }

/-- How letters are compared under the flags. -/
def Flags.folding (flags : Flags) : Folding :=
  if !flags.ignoreCase then .none else if flags.ascii then .ascii else .unicode

/-- A unit of the text of a pattern. -/
inductive Token where
  | plain (c : Char)
  | escaped (c : Char)
  /-- A backslash with nothing behind it. No part of a pattern can hold it. -/
  | dangling
  deriving Repr, DecidableEq

/-- The tokens of a pattern's text. -/
def tokens : List Char → List Token
  | [] => []
  | '\\' :: c :: rest => .escaped c :: tokens rest
  | c :: rest => (if c == '\\' then .dangling else .plain c) :: tokens rest

/-- The text of a token. -/
def Token.chars : Token → List Char
  | .plain c => [c]
  | .escaped c => ['\\', c]
  | .dangling => ['\\']

/-- The largest width that is told from others. -/
def widthLimit : Nat := Nat.pow 2 64

/-- The first repetition count that is too large. -/
def countLimit : Nat := 4294967295

/-- What a part is, as far as a repetition sign behind it wants to know. -/
inductive PartKind where
  | anchor
  | loop
  | other
  deriving Repr, DecidableEq

/-- A pattern read so far, with the bounds of its width. -/
structure Part where
  node : Node
  low : Nat
  high : Nat
  kind : PartKind := .other
  deriving Repr

/-- What the reader remembers. -/
structure Reader where
  rest : List Token
  /-- The number of groups begun, counting the whole pattern. -/
  groups : Nat := 1
  /-- The widths of the groups that are closed. -/
  widths : List (Nat × Nat × Nat) := []
  names : List (List Char × Nat) := []
  /-- Within a test of what stands before: the number of groups at its beginning. -/
  behindGroups : Option Nat := none
  /-- The numbers by which groups are referred to. They have to be groups once the pattern is read. -/
  expected : List Nat := []
  /-- A fault that shows only once the pattern is read. -/
  deferred : Option Fault := none
  deriving Repr

/-- A part that is an anchor. -/
def Part.ofAnchor (a : Anchor) : Part := ⟨.anchor a, 0, 0, .anchor⟩

/-- Whether two sets of flags share one. -/
def Flags.overlaps (a b : Flags) : Bool :=
  (a.ignoreCase && b.ignoreCase) || (a.multiline && b.multiline) || (a.dotAll && b.dotAll) ||
    (a.verbose && b.verbose)

/-- Parts one after the other. -/
def Part.seqAll (parts : List Part) : Part :=
  ⟨.seqAll (parts.map (·.node)),
    min ((parts.map (·.low)).foldl (· + ·) 0) widthLimit,
    min ((parts.map (·.high)).foldl (· + ·) 0) widthLimit, .other⟩

/-- A choice between parts. -/
def Part.altAll : List Part → Part
  | [] => ⟨.empty, 0, 0, .other⟩
  | first :: rest =>
    ⟨.altAll ((first :: rest).map (·.node)), rest.foldl (fun n p => min n p.low) first.low,
      rest.foldl (fun n p => max n p.high) first.high, .other⟩

/-- A repetition of a part. -/
def Part.loop (p : Part) (least : Nat) (largest : Option Nat) (appetite : Appetite) : Part :=
  ⟨.loop p.node least largest appetite, min (p.low * least) widthLimit,
    match largest with
    | none => if p.high == 0 then 0 else widthLimit
    | some n => min (p.high * n) widthLimit, .loop⟩

/-- A reading: it may move on, or fail. -/
abbrev Reading := StateT Reader (Except Error)

namespace Reader

/-- Fails with a fault. -/
def fail {α : Type} (fault : Fault) : Reading α := throw (.malformed fault)

/-- The next token. -/
def peek : Reading (Option Token) := return (← get).rest.head?

/-- Takes the next token. -/
def take : Reading (Option Token) := do
  let r ← get
  match r.rest with
  | [] => return none
  | t :: rest =>
    set { r with rest }
    return some t

/-- Takes the next token if it is the given character. -/
def accept (c : Char) : Reading Bool := do
  if (← peek) == some (.plain c) then
    let _ ← take
    return true
  else return false

/-- Takes characters while they satisfy a test, at most `n` of them. -/
def takeWhile (p : Char → Bool) : Nat → Reading (List Char)
  | 0 => return []
  | n + 1 => do
    match ← peek with
    | some (.plain c) =>
      if p c then
        let _ ← take
        return c :: (← takeWhile p n)
      else return []
    | _ => return []

/-- How many tokens are left. -/
def remaining : Reading Nat := return (← get).rest.length

/-- Takes a name up to a terminator, which is taken too. -/
def takeName (terminator : Char) : Nat → Reading (List Char)
  | 0 => fail .cutShort
  | n + 1 => do
    match ← take with
    | none | some .dangling => fail .cutShort
    | some t =>
      if t == .plain terminator then return []
      else return t.chars ++ (← takeName terminator n)

/-- A name up to a terminator, not empty. -/
def name (terminator : Char) : Reading (List Char) := do
  let found ← takeName terminator ((← remaining) + 1)
  if found.isEmpty then fail .badName else return found

/-- A character code of exactly `n` hexadecimal digits. -/
def hexCode (n : Nat) : Reading Nat := do
  let digits ← takeWhile isHexDigit n
  if digits.length < n then fail .badEscape
  else return ofDigits 16 (digits.filterMap hexValue?)

/-- Whether a character is an octal digit. -/
def isOctal (c : Char) : Bool := 48 ≤ c.toNat && c.toNat ≤ 55

/-- The number that ASCII digits spell. -/
def number (base : Nat) (digits : List Char) : Nat :=
  ofDigits base (digits.map fun c => c.toNat - 48)

/-- The code of an escape that is spelled in the same way inside classes and outside. Characters given
by their names (`\N{…}`) are left out: the names are not known here, and `\N` is refused like any other
letter without a meaning. -/
def escapedCode (c : Char) : Reading Nat := do
  match c with
  | 'x' => hexCode 2
  | 'u' => hexCode 4
  | 'U' =>
    let code ← hexCode 8
    if code < 0x110000 then return code else fail .badEscape
  | 'a' => return 7
  | 'f' => return 12
  | 'n' => return 10
  | 'r' => return 13
  | 't' => return 9
  | 'v' => return 11
  | _ => if isAsciiLetter c || isAsciiDigit c then fail .badEscape else return c.toNat

/-- The category that an escape names. -/
def category? : Char → Option ClassItem
  | 'd' => some (.category .digit false)
  | 'D' => some (.category .digit true)
  | 's' => some (.category .blank false)
  | 'S' => some (.category .blank true)
  | 'w' => some (.category .word false)
  | 'W' => some (.category .word true)
  | _ => none

/-- The member that an escape inside a class stands for. -/
def classEscape (c : Char) : Reading ClassItem := do
  match category? c with
  | some item => return item
  | none =>
    if c == 'b' then return .char 8
    else if isOctal c then
      let code := number 8 (c :: (← takeWhile isOctal 2))
      if code > 0o377 then fail .badEscape else return .char code
    else return .char (← escapedCode c)

/-- The member that a token inside a class stands for. -/
def classMember : Token → Reading ClassItem
  | .plain c => return .char c.toNat
  | .escaped c => classEscape c
  | .dangling => fail .badEscape

/-- The members of a class up to its end, given those read so far, the latest first. -/
def classItems : Nat → List ClassItem → Reading (List ClassItem)
  | 0, _ => fail .openClass
  | n + 1, found => do
    match ← take with
    | none => fail .openClass
    | some t =>
      if t == .plain ']' && !found.isEmpty then return found.reverse
      let first ← classMember t
      if !(← accept '-') then classItems n (first :: found)
      else
        match ← take with
        | none => fail .openClass
        | some u =>
          if u == .plain ']' then return (.char '-'.toNat :: first :: found).reverse
          match first, ← classMember u with
          | .char low, .char high =>
            if high < low then fail .badRange else classItems n (.range low high :: found)
          | _, _ => fail .badRange

/-- A class, from behind its opening bracket. -/
def classBody (flags : Flags) : Reading Part := do
  let negated ← accept '^'
  let items ← classItems ((← remaining) + 1) []
  return ⟨.one (.ofItems flags.folding flags.ascii negated items.eraseDups), 1, 1, .other⟩

/-- A part that is one given character. -/
def single (flags : Flags) (code : Nat) : Part :=
  ⟨.one (.ofItems flags.folding flags.ascii false [.char code]), 1, 1, .other⟩

/-- Refuses a reference to a group that is open, or that belongs to the test of what stands before
within which the reference is made. -/
def checkBehind (index : Nat) : Reading Unit := do
  let r ← get
  match r.behindGroups with
  | none => return ()
  | some limit =>
    if (r.widths.lookup index).isNone then fail .openGroup
    else if index ≥ limit then fail .groupInBehind
    else return ()

/-- Notes a number by which a group is referred to. -/
def refer (index : Nat) : Reading Unit := modify fun r => { r with expected := index :: r.expected }

/-- A reference to the text of a group. -/
def reference (flags : Flags) (index : Nat) : Reading Part := do
  match (← get).widths.lookup index with
  | none => fail .openGroup
  | some (low, high) =>
    checkBehind index
    return ⟨.back index flags.folding, low, high, .other⟩

/-- An escape that begins with a digit other than zero: three octal digits are a character, and
anything else refers to a group. -/
def numericEscape (flags : Flags) (c : Char) : Reading Part := do
  let more ← takeWhile isAsciiDigit 1
  let third ← match more with
    | [d] => if isOctal c && isOctal d then takeWhile isOctal 1 else pure []
    | _ => pure []
  if third.isEmpty then
    let index := number 10 (c :: more)
    if index < (← get).groups then
      refer index
      reference flags index
    else fail .unknownGroup
  else
    let code := number 8 (c :: more ++ third)
    if code > 0o377 then fail .badEscape else return single flags code

/-- The part that an escape outside classes stands for. -/
def escape (flags : Flags) (c : Char) : Reading Part := do
  match category? c with
  | some item => return ⟨.one (.ofItems .none flags.ascii false [item]), 1, 1, .other⟩
  | none =>
    match c with
    | 'A' => return .ofAnchor .textStart
    | 'Z' => return .ofAnchor .textEnd
    | 'b' => return .ofAnchor (.wordEdge flags.ascii false)
    | 'B' => return .ofAnchor (.wordEdge flags.ascii true)
    | '0' => return single flags (number 8 (← takeWhile isOctal 2))
    | _ =>
      if isAsciiDigit c then numericEscape flags c
      else return single flags (← escapedCode c)

/-- The flag that a letter stands for. -/
def flag? : Char → Option Flags
  | 'i' => some { ignoreCase := true }
  | 'm' => some { multiline := true }
  | 's' => some { dotAll := true }
  | 'x' => some { verbose := true }
  | 'a' => some { ascii := true }
  | 'u' => some { unicode := true }
  | 't' => some { template := true }
  | _ => none

/-- Flags to be switched on, given the letter taken last, with the sign behind them. -/
def flagsOn : Nat → Flags → Token → Reading (Flags × Char)
  | 0, _, _ => fail .cutShort
  | n + 1, found, t => do
    match t with
    | .plain c =>
      match flag? c with
      | none => fail .badFlags
      | some one =>
        let all := found.union one
        if all.ascii && all.unicode then fail .badFlags
        match ← take with
        | some (.plain d) =>
          if d == ')' || d == '-' || d == ':' then return (all, d) else flagsOn n all (.plain d)
        | _ => fail .badFlags
    | _ => fail .badFlags

/-- Flags to be switched off, up to the colon behind them. -/
def flagsOff : Nat → Flags → Token → Reading Flags
  | 0, _, _ => fail .cutShort
  | n + 1, found, t => do
    match t with
    | .plain c =>
      match flag? c with
      | none => fail .badFlags
      | some one =>
        let all := found.union one
        if all.ascii || all.unicode then fail .badFlags
        match ← take with
        | some (.plain d) => if d == ':' then return all else flagsOff n all (.plain d)
        | _ => fail .badFlags
    | _ => fail .badFlags

/-- What flags at the beginning of a group say. -/
inductive FlagGroup where
  /-- Flags for the whole pattern. -/
  | whole (flags : Flags)
  /-- Flags switched on and off within the group. -/
  | scoped (on off : Flags)

/-- Flags at the beginning of a group, given their first token. -/
def flagGroup (first : Token) : Reading FlagGroup := do
  let bound := (← remaining) + 1
  let (on, sign) ← if first == .plain '-' then pure ({}, '-') else flagsOn bound {} first
  if sign == ')' then return .whole on
  if on.template then fail .badFlags
  if sign == ':' then return .scoped on {}
  match ← take with
  | none => fail .badFlags
  | some t =>
    let off ← flagsOff bound {} t
    if off.template || on.overlaps off then fail .badFlags
    return .scoped on off

/-- A number that names a group: decimal digits of any script, single underscores between them,
with an optional sign and white space around. -/
def groupNumber? (s : List Char) : Option Nat :=
  match trim s with
  | '+' :: rest => digits none rest
  | rest => digits none rest
where
  /-- The number so far, absent where a digit has to come. -/
  digits : Option Nat → List Char → Option Nat
    | found, [] => found
    | found, c :: rest =>
      match decimalValue? c with
      | some d => digits (some (found.getD 0 * 10 + d)) rest
      | none =>
        if c == '_' && found.isSome then
          match rest with
          | d :: _ => if (decimalValue? d).isSome then digits found rest else none
          | [] => none
        else none

/-- The number of the group that a condition names. -/
def conditionGroup (found : List Char) : Reading Nat := do
  if isIdentifier found then
    match (← get).names.lookup found with
    | some index => return index
    | none => fail .unknownName
  else
    match groupNumber? found with
    | none | some 0 => fail .badName
    | some index =>
      refer index
      return index

/-- Begins a group. -/
def openGroup (label : Option (List Char)) : Reading Nat := do
  let r ← get
  let index := r.groups
  match label with
  | none =>
    set { r with groups := index + 1 }
    return index
  | some label =>
    if (r.names.lookup label).isSome then fail .duplicateName
    set { r with groups := index + 1, names := (label, index) :: r.names }
    return index

/-- Requires the end of a group. -/
def closeParenthesis : Reading Unit := do
  if ← accept ')' then return () else fail .openParenthesis

/-- Puts a fault off until the pattern is read, unless one has been put off already. -/
def defer (fault : Fault) : Reading Unit :=
  modify fun r => { r with deferred := r.deferred.orElse fun _ => some fault }

/-- The counts of a repetition sign; absent if a brace is not one. -/
def counts (sign : Char) : Reading (Option (Nat × Option Nat)) := do
  match sign with
  | '?' => return some (0, some 1)
  | '*' => return some (0, none)
  | '+' => return some (1, none)
  | _ =>
    let start ← get
    if start.rest.head? == some (.plain '}') then return none
    let bound ← remaining
    let low ← takeWhile isAsciiDigit bound
    let ranged ← accept ','
    let high ← if ranged then takeWhile isAsciiDigit bound else pure low
    if !(← accept '}') then
      set start
      return none
    let ended := (← peek) == some .dangling
    let least := number 10 low
    let largest := if high.isEmpty then none else some (number 10 high)
    if ended then fail .badEscape
    if least ≥ countLimit || largest.any (· ≥ countLimit) then throw .countTooLarge
    if largest.any (· < least) then fail .emptyCounts
    return some (least, largest)

/-- Repeats the latest part. -/
def repeatLatest (flags : Flags) (least : Nat) (largest : Option Nat) :
    List Part → Reading (List Part)
  | [] => fail .nothingToRepeat
  | p :: rest => do
    match p.kind with
    | .anchor => fail .nothingToRepeat
    | .loop => fail .repeatedRepeat
    | .other =>
      if flags.template then defer .repeatNotAllowed
      if ← accept '?' then return p.loop least largest .lazy :: rest
      if ← accept '+' then return p.loop least largest .possessive :: rest
      return p.loop least largest .greedy :: rest

/-- Whether a character is skipped in a verbose pattern. -/
def isVerboseBlank (c : Char) : Bool := c.toNat == 32 || (9 ≤ c.toNat && c.toNat ≤ 13)

/-- Skips the tokens up to a terminator, which is skipped too. The end of the pattern ends a
comment only if `endAllowed`. -/
def skipComment (terminator : Char) (endAllowed : Bool) : Nat → Reading Unit
  | 0 => fail .cutShort
  | n + 1 => do
    match ← take with
    | none => if endAllowed then return () else fail .openParenthesis
    | some .dangling => fail .badEscape
    | some t => if t == .plain terminator then return () else skipComment terminator endAllowed n

/-- What a parenthesis opens. -/
inductive Opening where
  /-- Something to put behind the parts read so far. -/
  | part (p : Part)
  /-- A comment. -/
  | nothing
  /-- Flags for the whole pattern. -/
  | flags (flags : Flags)

mutual

/-- A choice between sequences. At the top the flags for the whole pattern may be changed by the
first sequence, and hold in all later ones. -/
def alternatives : Nat → Flags → Bool → Reading (Part × Flags)
  | 0, _, _ => fail .cutShort
  | n + 1, flags, top => do
    let (first, flags) ← sequence n flags top []
    let others ← moreAlternatives n flags
    return (if others.isEmpty then first else .altAll (first :: others), flags)

/-- The sequences behind the first. -/
def moreAlternatives : Nat → Flags → Reading (List Part)
  | 0, _ => fail .cutShort
  | n + 1, flags => do
    if ← accept '|' then
      let (p, _) ← sequence n flags false []
      return p :: (← moreAlternatives n flags)
    else return []

/-- A sequence, given its parts so far, the latest first. `top` says whether flags for the whole
pattern may still come. -/
def sequence : Nat → Flags → Bool → List Part → Reading (Part × Flags)
  | 0, _, _, _ => fail .cutShort
  | n + 1, flags, top, found => do
    match ← peek with
    | none | some (.plain '|') | some (.plain ')') => return (.seqAll found.reverse, flags)
    | some t =>
      let _ ← take
      match t with
      | .dangling => fail .badEscape
      | .escaped c => sequence n flags top ((← escape flags c) :: found)
      | .plain c =>
        if flags.verbose && isVerboseBlank c then sequence n flags top found
        else if flags.verbose && c == '#' then
          skipComment '\n' true ((← remaining) + 1)
          sequence n flags top found
        else
          match c with
          | '[' => sequence n flags top ((← classBody flags) :: found)
          | '.' =>
            let s : CharClass := if flags.dotAll then .any else .anyInLine
            sequence n flags top (⟨.one s, 1, 1, .other⟩ :: found)
          | '^' =>
            let a : Anchor := if flags.multiline then .lineStart else .textStart
            sequence n flags top (.ofAnchor a :: found)
          | '$' =>
            let a : Anchor := if flags.multiline then .lineEnd else .finalLineEnd
            sequence n flags top (.ofAnchor a :: found)
          | '(' =>
            match ← parenthesis n flags with
            | .part p => sequence n flags top (p :: found)
            | .nothing => sequence n flags top found
            | .flags more =>
              if top && found.isEmpty then sequence n (flags.union more) top found
              else fail .lateFlags
          | _ =>
            if c == '?' || c == '*' || c == '+' || c == '\x7b' then
              match ← counts c with
              | none => sequence n flags top (single flags c.toNat :: found)
              | some (least, largest) =>
                sequence n flags top (← repeatLatest flags least largest found)
            else sequence n flags top (single flags c.toNat :: found)

/-- What stands behind an opening parenthesis, up to the closing one. -/
def parenthesis : Nat → Flags → Reading Opening
  | 0, _ => fail .cutShort
  | n + 1, flags => do
    if !(← accept '?') then
      return .part (← numbered n flags none)
    match ← take with
    | none => fail .cutShort
    | some (.plain ':') => return .part (← enclosed n flags)
    | some (.plain '>') =>
      let p ← enclosed n flags
      return .part { p with node := .atomic p.node }
    | some (.plain '#') =>
      skipComment ')' false ((← remaining) + 1)
      return .nothing
    | some (.plain 'P') =>
      if ← accept '<' then
        let label ← name '>'
        if isIdentifier label then return .part (← numbered n flags (some label))
        else fail .badName
      else if ← accept '=' then
        let label ← name ')'
        if !isIdentifier label then fail .badName
        match (← get).names.lookup label with
        | none => fail .unknownName
        | some index => return .part (← reference flags index)
      else fail .unknownExtension
    | some (.plain '=') => return .part (← lookAhead n flags false)
    | some (.plain '!') => return .part (← lookAhead n flags true)
    | some (.plain '<') =>
      match ← take with
      | some (.plain '=') => return .part (← lookBehind n flags false)
      | some (.plain '!') => return .part (← lookBehind n flags true)
      | _ => fail .unknownExtension
    | some (.plain '(') =>
      let index ← conditionGroup (← name ')')
      checkBehind index
      let (yes, _) ← sequence n flags false []
      if ← accept '|' then
        let (no, _) ← sequence n flags false []
        if (← peek) == some (.plain '|') then fail .tooManyBranches
        closeParenthesis
        let node := Node.cond index yes.node no.node
        return .part ⟨node, min yes.low no.low, max yes.high no.high, .other⟩
      else
        closeParenthesis
        return .part ⟨.cond index yes.node .empty, 0, yes.high, .other⟩
    | some t =>
      match ← flagGroup t with
      | .whole more => return .flags more
      | .scoped on off => return .part (← enclosed n (flags.adjust on off))

/-- The content of a group that is not kept. -/
def enclosed : Nat → Flags → Reading Part
  | 0, _ => fail .cutShort
  | n + 1, flags => do
    let (p, _) ← alternatives n flags false
    closeParenthesis
    return { p with kind := .other }

/-- The content of a group that is kept under the next number. -/
def numbered : Nat → Flags → Option (List Char) → Reading Part
  | 0, _, _ => fail .cutShort
  | n + 1, flags, label => do
    let index ← openGroup label
    let p ← enclosed n flags
    modify fun r => { r with widths := (index, p.low, p.high) :: r.widths }
    return { p with node := .group index p.node }

/-- A test of what comes next. -/
def lookAhead : Nat → Flags → Bool → Reading Part
  | 0, _, _ => fail .cutShort
  | n + 1, flags, negated => do
    let p ← enclosed n flags
    return ⟨.ahead negated p.node, 0, 0, .other⟩

/-- A test of what stands before. -/
def lookBehind : Nat → Flags → Bool → Reading Part
  | 0, _, _ => fail .cutShort
  | n + 1, flags, negated => do
    let outer := (← get).behindGroups
    modify fun r => { r with behindGroups := some (outer.getD r.groups) }
    let p ← enclosed n flags
    modify fun r => { r with behindGroups := outer }
    if p.low != p.high || p.low > countLimit then defer .variableWidth
    return ⟨.behind negated p.low p.node, 0, 0, .other⟩

end

/-- A whole pattern: its tree and the number of its groups. -/
def whole (flags : Flags) : Reading Node := do
  let (p, flags) ← alternatives (4 * (← remaining) + 8) flags true
  if flags.ascii && flags.unicode then throw .conflictingFlags
  let r ← get
  if !r.rest.isEmpty then fail .strayParenthesis
  if r.expected.any (· ≥ r.groups) then fail .unknownGroup
  match r.deferred with
  | some fault => fail fault
  | none => return p.node

end Reader

/-- Reads a pattern under the given flags. -/
def parse (flags : Flags) (text : List Char) : Except Error Node :=
  (Reader.whole flags).run' { rest := tokens text }

end LangId.Regex
