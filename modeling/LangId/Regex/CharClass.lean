import LangId.Text.Blank
import LangId.Text.Word
import LangId.Text.Lower

/-!
# Character classes

A set of characters as a pattern writes it: single characters, ranges and categories, possibly
complemented, possibly compared without regard to case.

Case-insensitive comparison works on lower-case forms. A class folds case only if one of its
members has a case at all; then the character of the text is lowered first, and a member accepts
it if some character of the member has that lower-case form or one of its further spellings.
-/
namespace LangId.Regex

open LangId.Text

/-- Which letters count as equal. -/
inductive Folding where
  /-- A letter equals itself only. -/
  | none
  /-- The two cases of an ASCII letter are equal. -/
  | ascii
  /-- The cases of a letter of any script are equal. -/
  | unicode
  deriving Repr, DecidableEq

/-- The lower-case form under a folding. -/
def Folding.lower : Folding → Nat → Nat
  | .none, n => n
  | .ascii, n => asciiLowerCode n
  | .unicode, n => lowerCode n

/-- The further spellings of a lower-case character under a folding. -/
def Folding.equivalents : Folding → Nat → List Nat
  | .unicode, n => equivalentsOf n
  | _, _ => []

/-- Whether a character has a case under a folding. -/
def Folding.isCased : Folding → Nat → Bool
  | .none, _ => false
  | .ascii, n => (65 ≤ n && n ≤ 90) || (97 ≤ n && n ≤ 122)
  | .unicode, n => isCasedCode n

/-- Whether some character from `low` to `high` has a case under a folding. -/
def Folding.isCasedRange : Folding → Nat → Nat → Bool
  | .none, _, _ => false
  | .ascii, low, high => (low ≤ 90 && 65 ≤ high) || (low ≤ 122 && 97 ≤ high)
  | .unicode, low, high => casedCharacters.meets low high

/-- All characters with a lower-case form under a folding. -/
def Folding.preimages : Folding → Nat → List Nat
  | .none, n => [n]
  | .ascii, n =>
    if 65 ≤ n && n ≤ 90 then [] else if 97 ≤ n && n ≤ 122 then [n, n - 32] else [n]
  | .unicode, n => lowerPreimages n

/-- The kinds of characters that a pattern can name. -/
inductive Category where
  | digit
  | blank
  | word
  deriving Repr, DecidableEq

/-- Whether a character is of a kind, by the tables of all scripts or within ASCII only. -/
def Category.holds (k : Category) (ascii : Bool) (c : Char) : Bool :=
  match k, ascii with
  | .digit, false => isDecimal c
  | .digit, true => isAsciiDigit c
  | .blank, false => isBlank c
  | .blank, true => c.toNat == 32 || (9 ≤ c.toNat && c.toNat ≤ 13)
  | .word, false => isWord c
  | .word, true => isAsciiWord c

/-- A member of a class. Characters are code points, since a pattern may name a surrogate. -/
inductive ClassItem where
  | char (code : Nat)
  | range (low high : Nat)
  | category (kind : Category) (negated : Bool)
  deriving Repr, DecidableEq

/-- A set of characters. -/
structure CharClass where
  items : List ClassItem
  negated : Bool := false
  /-- Whether categories are taken within ASCII only. -/
  ascii : Bool := false
  folding : Folding := .none
  deriving Repr, DecidableEq

/-- The last code point of the basic plane, up to which ranges are folded member by member. -/
def basicPlaneEnd : Nat := 0xFFFF

/-- Whether a member accepts a character compared as it is. -/
def ClassItem.holds (ascii : Bool) (c : Char) : ClassItem → Bool
  | .char code => c.toNat == code
  | .range low high => low ≤ c.toNat && c.toNat ≤ high
  | .category kind negated => kind.holds ascii c != negated

/-- Whether some character from `low` to `high` has the lower-case form `n` or a further spelling
of it. -/
def Folding.reaches (f : Folding) (low high n : Nat) : Bool :=
  let inside (i : Nat) := low ≤ i && i ≤ high
  (inside n && f.lower n == n) || (n :: f.equivalents n).any fun m => (f.preimages m).any inside

/-- Whether a member accepts a character whose lower-case form is `n`. Outside the basic plane a
character stands for itself, and a range accepts the upper-case form as well. -/
def ClassItem.holdsFolded (f : Folding) (ascii : Bool) (n : Nat) : ClassItem → Bool
  | .char code =>
    if basicPlaneEnd < code then n == code
    else let m := f.lower code; n == m || (f.equivalents m).contains n
  | .range low high =>
    f.reaches low (min high basicPlaneEnd) n ||
      (basicPlaneEnd < high &&
        ((low ≤ n && n ≤ high) || (low ≤ upperCode n && upperCode n ≤ high)))
  | .category kind negated => kind.holds ascii (Char.ofNat n) != negated

/-- Whether a class holds a character. -/
def CharClass.contains (s : CharClass) (c : Char) : Bool :=
  let found := match s.folding with
    | .none => s.items.any (·.holds s.ascii c)
    | f => let n := f.lower c.toNat; s.items.any (·.holdsFolded f s.ascii n)
  found != s.negated

/-- Whether a member makes its class fold case. -/
def ClassItem.foldsCase (f : Folding) : ClassItem → Bool
  | .char code => basicPlaneEnd < code || f.isCased code
  | .range low high => basicPlaneEnd < high || f.isCasedRange low high
  | .category _ _ => false

/-- The class of some members under a folding, which it keeps only if a member has a case. -/
def CharClass.ofItems (f : Folding) (ascii negated : Bool) (items : List ClassItem) : CharClass :=
  match items with
  | [.char code] =>
    if f.isCased code then { items := [.char (f.lower code)], negated, ascii, folding := f }
    else { items, negated, ascii }
  | _ =>
    if f != .none && items.any (·.foldsCase f) then { items, negated, ascii, folding := f }
    else { items, negated, ascii }

/-- All characters. -/
def CharClass.any : CharClass where
  items := []
  negated := true

/-- All characters but the line feed. -/
def CharClass.anyInLine : CharClass where
  items := [.char 10]
  negated := true

end LangId.Regex
