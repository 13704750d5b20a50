import LangId.Data.Value

/-!
# JSON

Reading JSON texts. Numbers with a fraction or an exponent are doubles, others are integers; of two
entries of one key the later counts.
-/
namespace LangId.Data.Json

open Text

/-- White space between the parts of a text. -/
def isSpace (c : Char) : Bool := c == ' ' || c == '\t' || c == '\n' || c == '\r'

/-- Drops leading white space. -/
def skip (s : List Char) : List Char := s.dropWhile isSpace

/-- Reads four hexadecimal digits. -/
def hex4? : List Char → Option (Nat × List Char)
  | a :: b :: c :: d :: rest => do
    return (ofDigits 16 [← hexValue? a, ← hexValue? b, ← hexValue? c, ← hexValue? d], rest)
  | _ => none

/-- The character of a short escape. -/
def shortEscape? : Char → Option Char
  | '"' => some '"'
  | '\\' => some '\\'
  | '/' => some '/'
  | 'b' => some '\x08'
  | 'f' => some '\x0c'
  | 'n' => some '\n'
  | 'r' => some '\r'
  | 't' => some '\t'
  | _ => none

/-- The character of a code unit, joined with the unit behind it if the two are a pair. -/
def unit (n : Nat) (rest : List Char) : Char × List Char :=
  match rest with
  | '\\' :: 'u' :: more =>
    match hex4? more with
    | some (low, more) =>
      if 0xD800 ≤ n && n < 0xDC00 && 0xDC00 ≤ low && low < 0xE000 then
        (Char.ofNat (0x10000 + (n - 0xD800) * 1024 + (low - 0xDC00)), more)
      else (Char.ofNat n, rest)
    | none => (Char.ofNat n, rest)
  | _ => (Char.ofNat n, rest)

/-- Reads the characters of a text up to its closing quote, behind those already found, the latest
first. Each step shortens the text, whose length bounds the steps. -/
def characters? : Nat → List Char → List Char → Option (String × List Char)
  | 0, _, _ => none
  | _, _, [] => none
  | bound + 1, found, c :: rest =>
    if c == '"' then some (String.ofList found.reverse, rest)
    else if c.toNat < 32 then none
    else if c == '\\' then
      match rest with
      | 'u' :: more => do
        let (n, more) ← hex4? more
        let (d, more) := unit n more
        characters? bound (d :: found) more
      | e :: more => do characters? bound ((← shortEscape? e) :: found) more
      | [] => none
    else characters? bound (c :: found) rest

/-- Reads a text behind its opening quote. -/
def string? (s : List Char) : Option (String × List Char) := characters? (s.length + 1) [] s

/-- The digits of a fraction behind its point, if there are any. -/
def fraction (s : List Char) : List Char × List Char :=
  match s with
  | '.' :: rest =>
    let ds := rest.takeWhile isAsciiDigit
    if ds.isEmpty then ([], s) else ('.' :: ds, rest.dropWhile isAsciiDigit)
  | _ => ([], s)

/-- The exponent of a number, if there is one. -/
def exponent (s : List Char) : List Char × List Char :=
  match s with
  | e :: rest =>
    if e == 'e' || e == 'E' then
      let (sign, rest) := match rest with
        | '+' :: more => (['+'], more)
        | '-' :: more => (['-'], more)
        | _ => ([], rest)
      let ds := rest.takeWhile isAsciiDigit
      if ds.isEmpty then ([], s) else (e :: sign ++ ds, rest.dropWhile isAsciiDigit)
    else ([], s)
  | [] => ([], s)

/-- The value of the parts of a number. -/
def numberOf (negative : Bool) (whole tail : List Char) : Value :=
  if tail.isEmpty then
    .integer (if negative then -(Number.natOf whole : Int) else Number.natOf whole)
  else
    let body := whole ++ tail
    match Number.readFloat? (if negative then '-' :: body else body) with
    | some x => .real x
    | none => .null

/-- Reads a number. -/
def number? (s : List Char) : Option (Value × List Char) :=
  let (negative, s) := match s with
    | '-' :: rest => (true, rest)
    | _ => (false, s)
  let (whole, s) := match s with
    | '0' :: rest => (['0'], rest)
    | _ => (s.takeWhile isAsciiDigit, s.dropWhile isAsciiDigit)
  if whole.isEmpty then none
  else
    let (f, s) := fraction s
    let (e, s) := exponent s
    some (numberOf negative whole (f ++ e), s)

/-- The words that stand for values. -/
def words : List (String × Value) := [
  ("null", .null), ("true", .truth true), ("false", .truth false),
  ("NaN", .real (Number.floatOfBits false Number.notNumberBits)),
  ("Infinity", .real (Number.floatOfBits false Number.infinityBits)),
  ("-Infinity", .real (Number.floatOfBits true Number.infinityBits))]

/-- Reads a word. -/
def word? (s : List Char) : Option (Value × List Char) :=
  (words.find? fun w => w.1.toList.isPrefixOf s).map fun w => (w.2, s.drop w.1.length)

mutual

/-- Reads a value; white space in front has been dropped. The bound is on the steps. -/
def value? : Nat → List Char → Option (Value × List Char)
  | 0, _ => none
  | bound + 1, s =>
    match s with
    | '"' :: rest => (string? rest).map fun (t, rest) => (.text t, rest)
    | '[' :: rest =>
      match skip rest with
      | ']' :: rest => some (.list [], rest)
      | rest => items? bound [] rest
    | '{' :: rest =>
      match skip rest with
      | '}' :: rest => some (.map [], rest)
      | rest => entries? bound [] rest
    | _ => (word? s).orElse fun _ => number? s

/-- Reads the items of a list behind those already found, the latest first. -/
def items? : Nat → List Value → List Char → Option (Value × List Char)
  | 0, _, _ => none
  | bound + 1, found, s => do
    let (v, s) ← value? bound (skip s)
    match skip s with
    | ',' :: rest => items? bound (v :: found) rest
    | ']' :: rest => return (.list (v :: found).reverse, rest)
    | _ => none

/-- Reads the entries of a map behind those already found. -/
def entries? : Nat → List (Value × Value) → List Char → Option (Value × List Char)
  | 0, _, _ => none
  | bound + 1, found, s =>
    match skip s with
    | '"' :: rest => do
      let (k, s) ← string? rest
      match skip s with
      | ':' :: rest => do
        let (v, s) ← value? bound (skip rest)
        let found := Value.insertEntry (.text k) v found
        match skip s with
        | ',' :: rest => entries? bound found rest
        | '}' :: rest => return (.map found, rest)
        | _ => none
      | _ => none
    | _ => none

end

/-- Reads a whole text. -/
def read? (s : List Char) : Option Value := do
  let (v, rest) ← value? (2 * s.length + 2) (skip s)
  if (skip rest).isEmpty then return v else none

end LangId.Data.Json
