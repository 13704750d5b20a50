import LangId.Data.Value
import LangId.Text.Quoted

/-!
# JSON texts

How data is written as JSON, in one line or with an indent for each level. Kinds that JSON does not
have are written as the nearest kind that it has.
-/
namespace LangId.Data.Json

open Text

/-- How a text is laid out. -/
structure Style where
  /-- Whether characters beyond ASCII are escaped. -/
  ascii : Bool := true
  /-- The spaces that each level is moved to the right by; absent if all stands in one line. -/
  indent : Option Nat := none
  deriving Repr, DecidableEq

/-- The escape of a unit of sixteen bits. -/
def escapedUnit (n : Nat) : List Char := '\\' :: 'u' :: hexDigits 4 n

/-- The escape of a character; beyond sixteen bits it takes two units. -/
def escapedChar (n : Nat) : List Char :=
  if n < 0x10000 then escapedUnit n
  else
    escapedUnit (0xD800 + (n - 0x10000) / 1024) ++ escapedUnit (0xDC00 + (n - 0x10000) % 1024)

/-- A character inside a quoted text. -/
def printedChar (ascii : Bool) (c : Char) : List Char :=
  let n := c.toNat
  if c == '"' || c == '\\' then ['\\', c]
  else if n == 8 then ['\\', 'b']
  else if n == 9 then ['\\', 't']
  else if n == 10 then ['\\', 'n']
  else if n == 12 then ['\\', 'f']
  else if n == 13 then ['\\', 'r']
  else if n < 32 || (ascii && 126 < n) then escapedChar n
  else [c]

/-- A quoted text. -/
def printedText (style : Style) (s : String) : String :=
  String.ofList ('"' :: s.toList.foldr (fun c rest => printedChar style.ascii c ++ rest) ['"'])

/-- The line break before an item at a depth, or nothing if all stands in one line. -/
def breakAt (style : Style) (depth : Nat) : String :=
  match style.indent with
  | none => ""
  | some width => String.ofList ('\n' :: List.replicate (width * depth) ' ')

/-- Items between two brackets. -/
def enclosed (style : Style) (depth : Nat) (opening closing : String) (items : List String) :
    String :=
  if items.isEmpty then opening ++ closing
  else
    let between := if style.indent.isNone then ", " else "," ++ breakAt style (depth + 1)
    opening ++ breakAt style (depth + 1) ++ between.intercalate items ++ breakAt style depth
      ++ closing

mutual

/-- A value at a depth. -/
def printAt (style : Style) (depth : Nat) : Value → String
  | .null => "null"
  | .truth b => if b then "true" else "false"
  | .integer n => toString n
  | .real x => Number.text x
  | .text s => printedText style s
  | .octets bytes => printedText style (String.ofList (bytes.map fun b => Char.ofNat b.toNat))
  | .day n => toString n
  | .moment n _ => toString n
  | .list items => enclosed style depth "[" "]" (printItems style (depth + 1) items)
  | .set items => enclosed style depth "[" "]" (printItems style (depth + 1) items)
  | .map entries => enclosed style depth "\x7b" "\x7d" (printEntries style (depth + 1) entries)

/-- The items of a list. -/
def printItems (style : Style) (depth : Nat) : List Value → List String
  | [] => []
  | v :: rest => printAt style depth v :: printItems style depth rest

/-- The entries of a map. -/
def printEntries (style : Style) (depth : Nat) : List (Value × Value) → List String
  | [] => []
  | (k, v) :: rest =>
    let key := match k with
      | .text s => printedText style s
      | k => printedText style (printAt style depth k)
    (key ++ ": " ++ printAt style depth v) :: printEntries style depth rest

end

/-- Writes a value. -/
def print (style : Style) (v : Value) : String := printAt style 0 v

end LangId.Data.Json
