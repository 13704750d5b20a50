import LangId.Data.Issue
import LangId.Data.Value
import LangId.Text.Blank
import LangId.Text.Utf8

/-!
# Schemas

How typed data is read from values. Reading is lenient in that numbers and truth values may be
written as texts, and exact in what it reports: every issue is told with its place, in the order of
the declared fields and of the items.
-/
namespace LangId.Data

open Text

/-- A way to read a value. -/
abbrev Schema (α : Type) := Value → Checked α

namespace Schema

variable {α β : Type}

/-- Reads a text; octets are decoded. -/
def text : Schema String
  | .text s => .ok s
  | .octets bytes =>
    match Utf8.decode? bytes with
    | some cs => .ok (String.ofList cs)
    | none => .problem .undecodableText
  | _ => .problem .notText

/-- Reads a text that is not empty. -/
def someText : Schema String := fun v =>
  (text v).andThen fun s => if s.isEmpty then .problem .emptyText else .ok s

/-- Reads null as nothing. -/
def nullable (s : Schema α) : Schema (Option α)
  | .null => .ok none
  | v => (s v).map some

/-- Whether a character may surround a number: white space but the information separators. -/
def surroundsNumber (c : Char) : Bool := isBlank c && !(28 ≤ c.toNat && c.toNat ≤ 31)

/-- Drops what may surround a number. -/
def trimNumber (s : List Char) : List Char :=
  ((s.dropWhile surroundsNumber).reverse.dropWhile surroundsNumber).reverse

/-- Drops single underscores between other characters; none if they stand elsewhere. -/
def withoutUnderscores? (s : List Char) : Option (List Char) :=
  let doubled := (s.zip (s.drop 1)).any fun (a, b) => a == '_' && b == '_'
  if s.head? == some '_' || s.getLast? == some '_' || !s.contains '_' || doubled then none
  else some (s.filter (· != '_'))

/-- An integer in plain form: a minus sign, if any, and digits, the first of them zero only if it
is the only one. -/
def plainInteger? (s : List Char) : Option Int :=
  let (negative, ds) := match s with
    | '-' :: rest => (true, rest)
    | _ => (false, s)
  match ds with
  | [] => none
  | ['0'] => some 0
  | '0' :: _ => none
  | _ =>
    if ds.all isAsciiDigit then
      some (if negative then -(Number.natOf ds : Int) else Number.natOf ds)
    else none

/-- Drops zeros, and underscores behind them, in front of a number; of a text that has nothing else,
the last character stays. -/
def withoutLeadingZeros? : List Char → Option (List Char)
  | [] => none
  | c :: rest =>
    if c == '-' || ('1' ≤ c && c ≤ '9') then some (c :: rest)
    else if c == '0' then go '0' rest
    else none
where
  /-- Goes on behind a first zero; `last` is the character before the text. -/
  go (last : Char) : List Char → Option (List Char)
    | [] => some [last]
    | c :: rest =>
      if c == '0' || c == '_' then go c rest
      else if '1' ≤ c && c ≤ '9' then some (c :: rest)
      else if c == '.' then some (last :: c :: rest)
      else none

/-- Drops a point and the zeros behind it. -/
def withoutZeroFraction (s : List Char) : List Char :=
  match s.span (· != '.') with
  | (whole, _ :: fraction) => if fraction.all (· == '0') then whole else s
  | _ => s

/-- Brings the text of an integer to plain form. -/
def cleanInteger? (s : List Char) : Option (List Char) := do
  let s := trimNumber s
  let s := match s with
    | '+' :: rest => if rest.head? == some '-' then s else rest
    | _ => s
  let s := withoutZeroFraction (← withoutLeadingZeros? s)
  return (withoutUnderscores? s).getD s

/-- How many characters the text of an integer may have. -/
def integerLength : Nat := 4300

/-- Reads the text of an integer. -/
def integerOfText (s : List Char) : Checked Int :=
  if integerLength < s.length then .problem .tooLongInteger
  else
    match (plainInteger? s).orElse fun _ => (cleanInteger? s).bind plainInteger? with
    | some n => .ok n
    | none => .problem .unreadableInteger

/-- The bound on doubles that are read as integers. -/
def integerBound : Nat := Nat.pow 2 63

/-- Reads a double that has no fraction as an integer. -/
def integerOfReal (x : Float) : Checked Int :=
  match Number.Reading.ofFloat x with
  | .finite b =>
    let (num, den) := b.ratio
    if num % den != 0 then .problem .fractionalInteger
    else if integerBound ≤ num / den then .problem .tooLongInteger
    else .ok (if b.negative then -(num / den : Nat) else (num / den : Nat))
  | _ => .problem .infiniteInteger

/-- The text of a value that holds one, or octets; `p` is the problem with octets that are no
text. -/
def textOf? (p : Problem) : Value → Option (Checked (List Char))
  | .text s => some (.ok s.toList)
  | .octets bytes =>
    match Utf8.decode? bytes with
    | some cs => some (.ok cs)
    | none => some (.problem p)
  | _ => none

/-- Reads an integer. -/
def integer : Schema Int := fun v =>
  match textOf? .unreadableInteger v with
  | some s => s.andThen integerOfText
  | none =>
    match v with
    | .integer n => .ok n
    | .truth b => .ok (if b then 1 else 0)
    | .real x => integerOfReal x
    | _ => .problem .notInteger

/-- Reads an integer between two bounds. -/
def integerIn (low high : Int) : Schema Int := fun v =>
  (integer v).andThen fun n =>
    if high < n then .problem .notAtMost
    else if n < low then .problem .notAtLeast
    else .ok n

/-- Reads the text of a number. -/
def numberOfText (s : List Char) : Checked Float :=
  let s := trimNumber s
  match (Number.readFloat? s).orElse fun _ => (withoutUnderscores? s).bind Number.readFloat? with
  | some x => .ok x
  | none => .problem .unreadableNumber

/-- Reads a number. -/
def number : Schema Float := fun v =>
  match textOf? .unreadableNumber v with
  | some s => s.andThen numberOfText
  | none =>
    match v with
    | .real x => .ok x
    | .truth b => .ok (if b then 1.0 else 0.0)
    | .integer n =>
      let x := Number.ofInt n
      if x.isInf then .problem .notNumber else .ok x
    | _ => .problem .notNumber

/-- Reads a number above a bound and not above another one. -/
def numberIn (above most : Float) : Schema Float := fun v =>
  (number v).andThen fun x =>
    if !(x ≤ most) then .problem .notAtMost
    else if !(above < x) then .problem .notAbove
    else .ok x

/-- The words for true. -/
def trueWords : List String := ["1", "on", "t", "true", "y", "yes"]

/-- The words for false. -/
def falseWords : List String := ["0", "off", "f", "false", "n", "no"]

/-- An ASCII letter in lower case. -/
def asciiLower (c : Char) : Char :=
  if 65 ≤ c.toNat && c.toNat ≤ 90 then Char.ofNat (c.toNat + 32) else c

/-- Reads a word for a truth value, in any case. -/
def truthOfText (s : List Char) : Checked Bool :=
  let word := String.ofList (s.map asciiLower)
  if trueWords.contains word then .ok true
  else if falseWords.contains word then .ok false
  else .problem .unreadableTruth

/-- Reads an integer as a truth value. -/
def truthOfInteger (n : Int) : Checked Bool :=
  if n == 0 then .ok false else if n == 1 then .ok true else .problem .unreadableTruth

/-- Reads a truth value. -/
def truth : Schema Bool := fun v =>
  match textOf? .unreadableTruth v with
  | some s => s.andThen truthOfText
  | none =>
    match v with
    | .truth b => .ok b
    | .integer n =>
      if -(integerBound : Int) ≤ n && n < integerBound then truthOfInteger n
      else .problem .notTruth
    | .real x =>
      match integerOfReal x with
      | .ok n => truthOfInteger n
      | .bad _ => .problem .notTruth
    | _ => .problem .notTruth

/-- Reads items, each at its position. -/
def items (s : Schema α) (values : List Value) : Checked (List α) :=
  Checked.all (values.zipIdx.map fun (v, i) => (s v).within (.index i))

/-- Reads a list. -/
def list (s : Schema α) : Schema (List α)
  | .list values => items s values
  | .set values => items s values
  | _ => .problem .notList

/-- Reads a list as a set. -/
def set (s : Schema α) : Schema (List α)
  | .list values => items s values
  | .set values => items s values
  | _ => .problem .notSet

/-- The step to a key. -/
def stepTo : Value → Step
  | .text s => .field s
  | .truth b => .index (if b then 1 else 0)
  | .integer n =>
    if -(integerBound : Int) ≤ n && n < integerBound then .index n else .field (toString n)
  | .real x => .field (Number.text x)
  | .null => .field "None"
  | v => .field v.kindName

/-- Reads a map from texts. -/
def textMap (s : Schema α) : Schema (List (String × α))
  | .map entries => Checked.all (entries.map fun (k, v) =>
      Prod.mk <$> ((text k).within (.field "[key]")).within (stepTo k) <*> (s v).within (stepTo k))
  | _ => .problem .notMap

/-- Reads one of some named things by its name. -/
def member (ofName? : String → Option α) : Schema α := fun v =>
  match text v with
  | .ok s =>
    match ofName? s with
    | some a => .ok a
    | none => .problem .notMember
  | .bad _ => .problem .notMember

/-- Reads one of some given words. -/
def literal (words : List String) : Schema String
  | .text s => if words.contains s then .ok s else .problem .notLiteral
  | _ => .problem .notLiteral

/-- Reads a value in either of two ways. If it can be read in neither, the issues of both are told,
each under the name of its way. -/
def either (firstName : String) (first : Schema α) (secondName : String) (second : Schema α) :
    Schema α := fun v =>
  match first v with
  | .ok a => .ok a
  | .bad _ =>
    match second v with
    | .ok a => .ok a
    | .bad _ =>
      .bad (((first v).within (.field firstName)).issues
        ++ ((second v).within (.field secondName)).issues)

/-- The entries of a value that is to be a record. -/
def entries : Schema (List (Value × Value))
  | .map entries => .ok entries
  | _ => .problem .notRecord

/-- Reads a record. Entries that it does not declare are passed over. -/
def record (s : List (Value × Value) → Checked α) : Schema α := fun v => (entries v).andThen s

/-- Tells each entry of a record that is not declared. -/
def undeclared (names : List String) (found : List (Value × Value)) : List Issue :=
  found.filterMap fun (k, _) =>
    match k with
    | .text name => if names.contains name then none else some ⟨[stepTo k], .unknownField⟩
    | _ => some ⟨[stepTo k], .badKey⟩

/-- Reads a record that may hold declared entries only. -/
def strictRecord (names : List (Value × Value) → List String)
    (s : List (Value × Value) → Checked α) : Schema α := record fun found =>
  match s found, undeclared (names found) found with
  | .ok a, [] => .ok a
  | result, more => .bad (result.issues ++ more)

/-- Reads a field that has to be there. -/
def required (name : String) (s : Schema α) (found : List (Value × Value)) : Checked α :=
  match Value.field? name found with
  | some v => (s v).within (.field name)
  | none => .bad [⟨[.field name], .missing⟩]

/-- Reads a field that may be missing. -/
def optional (name : String) (s : Schema α) (default : α) (found : List (Value × Value)) :
    Checked α :=
  match Value.field? name found with
  | some v => (s v).within (.field name)
  | none => .ok default

end Schema

end LangId.Data
