import LangId.Path
import LangId.Text.Blank
import LangId.Text.Word

/-!
# Interpreters

The interpreter that the first line of a script asks for: the command behind `#!`, looked for
behind `env` and its arguments, and taken from the line with which a shell script hands itself
over to another interpreter.
-/
namespace LangId.Shebang

open Text

/-- How many lines of a shell script are searched for a hand-over. -/
def searchedLines : Nat := 5

/-- Whether a word is an option: a dash and letters or digits, or two dashes and anything. -/
def isOption : List Char → Bool
  | '-' :: '-' :: rest => !rest.isEmpty
  | '-' :: rest => !rest.isEmpty && rest.all fun c => isAsciiLetter c || isAsciiDigit c
  | _ => false

/-- Whether a word assigns a variable: a name, an equals sign, and anything. -/
def isAssignment (word : List Char) : Bool :=
  match word.span isAsciiWord with
  | (c :: _, '=' :: _) => !isAsciiDigit c
  | _ => false

/-- Whether a word refers to a variable: a dollar sign and a name without digits. -/
def isVariable : List Char → Bool
  | '$' :: rest => !rest.isEmpty && rest.all fun c => isAsciiLetter c || c == '_'
  | _ => false

/-- Whether `env` takes a word as its own rather than as the command. -/
def isForEnv (word : List Char) : Bool := isOption word || isAssignment word || isVariable word

/-- Behind a given text, if it stands in front. -/
def after? : List Char → List Char → Option (List Char)
  | [], s => some s
  | x :: rest, y :: s => if x == y then after? rest s else none
  | _ :: _, [] => none

/-- Behind a run of at least one character of a kind. -/
def afterRun? (p : Char → Bool) (s : List Char) : Option (List Char) :=
  match s with
  | c :: _ => if p c then some (s.dropWhile p) else none
  | [] => none

/-- Whether a character may stand between the arguments of a hand-over. -/
def isBetweenArguments (c : Char) : Bool := isBlank c || c == '\'' || c == '"'

/-- The command of a hand-over `exec command "$0" "$@"` at the beginning of a text. -/
def handOverAt? (s : List Char) : Option (List Char) := do
  let s ← afterRun? isBlank (← after? "exec".toList s)
  let command := s.takeWhile isWord
  if command.isEmpty then none
  let s ← afterRun? isBetweenArguments (s.dropWhile isWord)
  let s ← afterRun? isBetweenArguments (← after? "$0".toList s)
  let _ ← after? "$@".toList s
  return command

/-- The command of the first hand-over in a line. -/
def handOver? : List Char → Option (List Char)
  | [] => none
  | c :: rest => (handOverAt? (c :: rest)).orElse fun _ => handOver? rest

/-- Cuts a version of the form `3.11` behind `python` down to its first number. -/
def majorVersion (interpreter : List Char) : List Char :=
  match after? "python".toList interpreter with
  | none => interpreter
  | some rest =>
    match rest.dropWhile isDecimal with
    | '.' :: c :: _ =>
      if isDecimal c then "python".toList ++ rest.takeWhile isDecimal else interpreter
    | _ => interpreter

/-- Drops the carriage returns at the end of a line. -/
def withoutReturns (line : List Char) : List Char :=
  (line.reverse.dropWhile (· == '\r')).reverse

/-- The last component of a command. -/
def commandName (word : List Char) : List Char := (Path.nameOf (String.ofList word)).toList

/-- The command of a first line and its arguments, looked for behind `env`. -/
def command? : List (List Char) → Option (List Char × List (List Char))
  | [] => none
  | word :: args =>
    let found := commandName word
    if found == "env".toList then
      match args.dropWhile isForEnv with
      | [] => none
      | word :: args => some (commandName word, args)
    else some (found, args)

/-- The interpreter of a script. -/
def interpreter? (content : List Char) : Option String := do
  let body ← after? "#!".toList content
  let (found, args) ← command? (words (withoutReturns (upTo '\n' body)))
  let handed :=
    if found == "sh".toList then
      (((splitOn '\n' content).take searchedLines).findSome? handOver?).getD found
    else found
  let interpreter := majorVersion handed
  if interpreter == "osascript".toList && args.contains "-l".toList then none
  if interpreter.isEmpty then none
  return String.ofList interpreter

/-- Whether a text is a version: digits and dots, at least one, with nothing but at most one line
feed behind. -/
def isVersion (s : List Char) : Bool :=
  match s.span fun c => isDecimal c || c == '.' with
  | (_ :: _, []) => true
  | (_ :: _, ['\n']) => true
  | _ => false

/-- The shortest text without digits in front of a version, given what precedes, reversed. -/
def withoutVersion? (before : List Char) : List Char → Option (List Char)
  | [] => none
  | c :: rest =>
    if isDecimal c then none
    else if isVersion rest then some (c :: before).reverse
    else withoutVersion? (c :: before) rest

/-- The name of an interpreter without its version; absent if it ends in none. -/
def stripVersion? (interpreter : String) : Option String :=
  (withoutVersion? [] interpreter.toList).map String.ofList

end LangId.Shebang
