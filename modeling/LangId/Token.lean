import LangId.Shebang

/-!
# Tokens

The units by which a content is compared with training data. Literals are reduced to their kind;
words and runs of punctuation are kept; a first line with an interpreter becomes one token.
-/
namespace LangId.Token

open Text

/-- The token of a quoted text. -/
def string : String := "<string>"

/-- The token of a number. -/
def number : String := "<number>"

/-- What the token of an interpreter begins with. -/
def shebangMark : String := "SHEBANG#!"

/-- How many tokens are read unless another bound is given. -/
def defaultBound : Nat := 100000

/-- Behind the quote that ends a quoted text in the same line. A backslash hides the character
behind it. -/
def afterQuote? (quote : Char) : List Char → Option (List Char)
  | [] => none
  | '\\' :: c :: rest => if c == '\n' then none else afterQuote? quote rest
  | c :: rest =>
    if c == quote then some rest
    else if c == '\\' || c == '\n' then none
    else afterQuote? quote rest

/-- Behind a sign and digits, if digits follow the sign. -/
def afterDigits? (s : List Char) : Option (List Char) := Shebang.afterRun? isDecimal s

/-- Behind the fraction of a number, if there is one. -/
def skipFraction : List Char → List Char
  | '.' :: rest => (afterDigits? rest).getD ('.' :: rest)
  | s => s

/-- Behind the exponent of a number, if there is one. -/
def skipExponent (s : List Char) : List Char :=
  match s with
  | e :: rest =>
    if e == 'e' || e == 'E' then
      match rest with
      | sign :: more =>
        if sign == '+' || sign == '-' then (afterDigits? more).getD s
        else (afterDigits? rest).getD s
      | [] => s
    else s
  | [] => s

/-- Behind a hexadecimal number. -/
def afterHex? : List Char → Option (List Char)
  | '0' :: x :: rest => if x == 'x' || x == 'X' then Shebang.afterRun? isHexDigit rest else none
  | _ => none

/-- Behind a number. -/
def afterNumber? (s : List Char) : Option (List Char) :=
  (afterHex? s).orElse fun _ => (afterDigits? s).map fun rest => skipExponent (skipFraction rest)

/-- Whether a character may begin a word. -/
def startsWord (c : Char) : Bool := isAsciiLetter c || c == '_'

/-- A word, with the sign in front of it, and what stands behind. -/
def word? : List Char → Option (List Char × List Char)
  | c :: rest =>
    if startsWord c then some (c :: rest.takeWhile isAsciiWord, rest.dropWhile isAsciiWord)
    else if c == '@' || c == '#' || c == '$' then
      match rest with
      | d :: more =>
        if startsWord d then
          some (c :: d :: more.takeWhile isAsciiWord, more.dropWhile isAsciiWord)
        else none
      | [] => none
    else none
  | [] => none

/-- Whether a character belongs to runs of punctuation. -/
def isPunctuation (c : Char) : Bool := !isWord c && !isBlank c && c != '"' && c != '\''

/-- One step through a content. -/
structure Scanned where
  /-- The token found, absent if a character has been passed over. -/
  token : Option String
  /-- Whether a number may not begin behind it, for a word character or a dot stands before. -/
  joined : Bool
  rest : List Char

/-- Reads the token at the beginning of a content that is not empty, or passes over a character. -/
def scan (joined : Bool) (c : Char) (rest : List Char) : Scanned :=
  let quotedRest := if c == '"' || c == '\'' then afterQuote? c rest else none
  match quotedRest with
  | some rest => ⟨some string, false, rest⟩
  | none =>
    match if joined then none else afterNumber? (c :: rest) with
    | some rest => ⟨some number, true, rest⟩
    | none =>
      match word? (c :: rest) with
      | some (word, rest) => ⟨some (String.ofList word), true, rest⟩
      | none =>
        if isPunctuation c then
          let run := c :: rest.takeWhile isPunctuation
          ⟨some (String.ofList run), run.getLast? == some '.', rest.dropWhile isPunctuation⟩
        else ⟨none, isWord c, rest⟩

/-- The tokens of a content behind those already found, the latest first. Each step shortens the
content, so its length bounds their number. -/
def scanAll : Nat → Bool → List String → List Char → List String
  | 0, _, found, _ => found.reverse
  | _, _, found, [] => found.reverse
  | bound + 1, joined, found, c :: rest =>
    let s := scan joined c rest
    scanAll bound s.joined (match s.token with | some t => t :: found | none => found) s.rest

/-- The tokens of a content that does not begin with `#!`. -/
def ofBody (body : List Char) : List String := scanAll body.length false [] body

/-- All tokens of a content. -/
def ofContent (content : List Char) : List String :=
  if "#!".toList.isPrefixOf content then
    let tokens := ofBody (behind '\n' content)
    match Shebang.interpreter? content with
    | some interpreter => (shebangMark ++ interpreter) :: tokens
    | none => tokens
  else ofBody content

/-- The first tokens of a content, up to a bound. -/
def tokenize (content : List Char) (bound : Nat) : List String := (ofContent content).take bound

end LangId.Token
