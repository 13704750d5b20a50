import LangId.Knowledge.Error
import LangId.Regex.Pattern
import LangId.Text.Word

/-!
# Pattern dialect

Definitions are written for another dialect of patterns than the one that is searched with. Three
constructs are adapted: the end of the text, hexadecimal digits, and named groups. Flags at the
beginning of a pattern are confined to it, so that several patterns can be joined into one.
-/
namespace LangId.Dialect

open Text

/-- Replaces an escaped letter wherever no backslash stands before its own. The first argument is
the character before the text. -/
def replaceEscape (letter : Char) (replacement : List Char) (before : Option Char) :
    List Char → List Char
  | '\\' :: c :: rest =>
    if c == letter && before != some '\\' then
      replacement ++ replaceEscape letter replacement (some c) rest
    else '\\' :: replaceEscape letter replacement (some '\\') (c :: rest)
  | c :: rest => c :: replaceEscape letter replacement (some c) rest
  | [] => []

/-- The name of a group whose opening has been read, and what stands behind its `>`. -/
def groupName? (s : List Char) : Option (List Char × List Char) :=
  match s with
  | c :: rest =>
    if isAsciiLetter c || c == '_' then
      match rest.span isWord with
      | (more, '>' :: rest) => some (c :: more, rest)
      | _ => none
    else none
  | [] => none

/-- Adapts the openings of named groups. -/
def nameGroups : List Char → List Char
  | '(' :: '?' :: '<' :: rest =>
    if (groupName? rest).isSome then
      '(' :: '?' :: 'P' :: '<' :: nameGroups rest
    else '(' :: '?' :: '<' :: nameGroups rest
  | c :: rest => c :: nameGroups rest
  | [] => []

/-- Whether a letter is a flag that a pattern may begin with. -/
def isLeadingFlag (c : Char) : Bool := c == 'i' || c == 'm' || c == 's' || c == 'x'

/-- Confines the flags at the beginning of a pattern to it. -/
def confineFlags (pattern : List Char) : List Char :=
  match pattern with
  | '(' :: '?' :: rest =>
    match rest.span isLeadingFlag with
    | (flag :: flags, ')' :: body) =>
      '(' :: '?' :: flag :: flags ++ ':' :: body ++ [')']
    | _ => pattern
  | _ => pattern

/-- The pattern that says the same in the dialect that is searched with. -/
def adaptChars (pattern : List Char) : List Char :=
  let ended := replaceEscape 'z' "\\Z".toList none pattern
  let digits := replaceEscape 'h' "[0-9a-fA-F]".toList none ended
  confineFlags (nameGroups digits)

/-- The text of the pattern that says the same in the dialect that is searched with. -/
def adapt (pattern : String) : String := String.ofList (adaptChars pattern.toList)

/-- Joins patterns into one that occurs where any of them does. -/
def join (patterns : List String) : String :=
  "|".intercalate (patterns.map fun p => "(?:" ++ adapt p ++ ")")

/-- The flags of patterns on contents. -/
def contentFlags : Regex.Flags := { multiline := true }

/-- Compiles the patterns of a definition into one. `source` says where they stand. -/
def compile (value : OneOrMany) (source : String) : Except BuildError Regex.Pattern :=
  match value.toList with
  | [] => .error (.definition (.noPatterns source))
  | patterns =>
    let joined := join patterns
    match Regex.Pattern.compile contentFlags joined with
    | .ok p => .ok p
    | .error (.malformed fault) => .error (.definition (.badPattern joined source fault))
    | .error e => .error (.pattern e)

end LangId.Dialect
