import LangId.Yaml.Fault
import LangId.Data.Value
import LangId.Text.Lines
import LangId.Yaml.Calendar

/-!
# What plain YAML scalars stand for

A plain scalar without a tag is told by its text: it may be null, a truth value, a number, a day or
a moment, and is a text otherwise. The rules are those of YAML 1.1.
-/
namespace LangId.Yaml

open Data Text

/-- The kinds that tags tell. -/
inductive Kind where
  | null
  | truth
  | integer
  | real
  | text
  | octets
  | stamp
  | list
  | pairs
  | set
  | map
  | merge
  | equals
  | unknown
  deriving Repr, DecidableEq

namespace Kind

/-- What the tags of the known kinds begin with. -/
def home : String := "tag:yaml.org,2002:"

/-- The known kinds with their tags. -/
def known : List (String × Kind) := [
  ("null", null), ("bool", truth), ("int", integer), ("float", real), ("str", text),
  ("binary", octets), ("timestamp", stamp), ("seq", list), ("omap", pairs), ("pairs", pairs),
  ("set", set), ("map", map), ("merge", merge), ("value", equals)]

/-- The kind that a tag tells. -/
def ofTag (tag : String) : Kind :=
  match known.find? fun k => home ++ k.1 == tag with
  | some k => k.2
  | none => unknown

end Kind

namespace Plain

/-- The words for truth values, in lower case. -/
def truthWords : List (String × Bool) := [
  ("yes", true), ("no", false), ("true", true), ("false", false), ("on", true), ("off", false)]

/-- A text in lower case, if it holds ASCII letters only. -/
def lowered (s : List Char) : List Char :=
  s.map fun c => if 65 ≤ c.toNat && c.toNat ≤ 90 then Char.ofNat (c.toNat + 32) else c

/-- A text in upper case, if it holds ASCII letters only. -/
def raised (s : List Char) : List Char :=
  s.map fun c => if 97 ≤ c.toNat && c.toNat ≤ 122 then Char.ofNat (c.toNat - 32) else c

/-- The three spellings of a word: in lower case, with a capital, and in upper case. -/
def spellings (word : String) : List (List Char) :=
  let w := word.toList
  [w, raised (w.take 1) ++ w.drop 1, raised w]

/-- Whether a text is a word in one of its spellings. -/
def isWord (word : String) (s : List Char) : Bool := (spellings word).contains s

/-- Whether a character is a digit or an underscore. -/
def isDigitOrGap (c : Char) : Bool := isAsciiDigit c || c == '_'

/-- Drops a sign. -/
def withoutSign (s : List Char) : List Char := (Number.splitSign s).2

/-- Whether a text is one or two digits, of which two are below sixty. -/
def isSixtieth (s : List Char) : Bool :=
  match s with
  | [a] => isAsciiDigit a
  | [a, b] => '0' ≤ a && a ≤ '5' && isAsciiDigit b
  | _ => false

/-- Whether a text is a number in base sixty: digits, and parts behind colons. -/
def isSexagesimal (s : List Char) : Bool :=
  match splitOn ':' s with
  | first :: second :: rest =>
    (first.head?.any isAsciiDigit) && first.all isDigitOrGap && (second :: rest).all isSixtieth
  | _ => false

/-- Whether a text is an integer: in base two, eight, ten, sixteen or sixty. -/
def isInteger (s : List Char) : Bool :=
  match withoutSign s with
  | '0' :: 'b' :: ds => !ds.isEmpty && ds.all fun c => c == '0' || c == '1' || c == '_'
  | '0' :: 'x' :: ds => !ds.isEmpty && ds.all fun c => isHexDigit c || c == '_'
  | ['0'] => true
  | '0' :: ds => ds.all fun c => ('0' ≤ c && c ≤ '7') || c == '_'
  | c :: ds =>
    '1' ≤ c && c ≤ '9' && (ds.all isDigitOrGap || isSexagesimal (c :: ds))
  | [] => false

/-- Whether a text is nothing, or an exponent with its sign. -/
def isExponentOrEnd : List Char → Bool
  | [] => true
  | e :: sign :: d :: ds =>
    (e == 'e' || e == 'E') && (sign == '+' || sign == '-') && (d :: ds).all isAsciiDigit
  | _ => false

/-- Whether a text is a number with a point, in base ten or sixty, infinite, or no number at all. -/
def isReal (s : List Char) : Bool :=
  let body := withoutSign s
  match body.span (· != '.') with
  | (_, []) => false
  | (whole, _ :: rest) =>
    match whole with
    | [] =>
      isWord "inf" rest
        || (s == body && ([['n', 'a', 'n'], ['N', 'a', 'N'], ['N', 'A', 'N']].contains rest
          || (rest.head?.any isAsciiDigit && isExponentOrEnd (rest.dropWhile isDigitOrGap))))
    | d :: ds =>
      isAsciiDigit d && ds.all isDigitOrGap && isExponentOrEnd (rest.dropWhile isDigitOrGap)
        || isSexagesimal whole && rest.all isDigitOrGap

/-- The kind of a plain scalar. -/
def kindOf (s : List Char) : Kind :=
  if truthWords.any fun w => isWord w.1 s then .truth
  else if isReal s then .real
  else if isInteger s then .integer
  else if s == ['<', '<'] then .merge
  else if s.isEmpty || s == ['~'] || isWord "null" s then .null
  else if (Calendar.written? s).isSome then .stamp
  else if s == ['='] then .equals
  else .text

/-- Drops underscores. -/
def withoutGaps (s : List Char) : List Char := s.filter (· != '_')

/-- Refuses a text that spells no integer in a base. -/
def noInteger {α : Type} (base : Nat) (s : List Char) : Except Error α :=
  .error (.noSuchValue s!"invalid literal for int() with base {base}: {quoted (String.ofList s)}")

/-- The integer that digits spell in a base. -/
def integerOf (base : Nat) (ds : List Char) : Except Error Nat :=
  match ds.mapM hexValue? with
  | some values =>
    if ds.isEmpty || values.any (base ≤ ·) then noInteger base ds else .ok (ofDigits base values)
  | none => noInteger base ds

/-- The value of the text of an integer. -/
def integer (s : List Char) : Except Error Int := do
  let (negative, body) := Number.splitSign (withoutGaps s)
  let n : Nat ← match body with
    | ['0'] => pure 0
    | '0' :: 'b' :: ds => integerOf 2 ds
    | '0' :: 'x' :: ds => integerOf 16 ds
    | '0' :: _ => integerOf 8 body
    | [] => .error (.oversight .emptyNumber)
    | _ =>
      let parts ← (splitOn ':' body).mapM (integerOf 10)
      pure (ofDigits 60 parts)
  return if negative then -(n : Int) else n

/-- The value of a part of the text of a real number. -/
def realPart (s : List Char) : Except Error Float :=
  match Number.readFloat? s with
  | some x => .ok x
  | none =>
    .error (.noSuchValue s!"could not convert string to float: {quoted (String.ofList s)}")

/-- The value of the parts of a number in base sixty, the last one first. -/
def sixtieths : Float → List Float → Float → Float
  | value, [], _ => value
  | value, d :: rest, base => sixtieths (value + d * base) rest (base * 60.0)

/-- The value of the text of a real number. -/
def real (s : List Char) : Except Error Float := do
  let written := lowered (withoutGaps s)
  let (negative, body) := Number.splitSign written
  let x ←
    if written.isEmpty then .error (.oversight .emptyNumber)
    else if body == ".inf".toList then pure (Number.floatOfBits false Number.infinityBits)
    else if body == ".nan".toList then pure (Number.floatOfBits false Number.notNumberBits)
    else if body.contains ':' then do
      let parts ← (splitOn ':' body).mapM realPart
      pure (sixtieths 0.0 parts.reverse 1.0)
    else realPart body
  return if negative then -x else x

/-- The value of a truth word. -/
def truth? (s : List Char) : Option Bool := truthWords.lookup (String.ofList (lowered s))

/-- The value of the text of a day or a moment. -/
def stamp (s : List Char) : Except Error Value :=
  match Calendar.written? s with
  | none => .error (.oversight .stamp)
  | some w => w.stamp.map fun
    | .day n => .day n
    | .moment n universal => .moment n universal

end Plain

end LangId.Yaml
