import LangId.Text.Ranges

/-!
# White space

The characters that separate words in a text: the Unicode white space of version 14.0 together
with the four information separators U+001C to U+001F.
-/
namespace LangId.Text

/-- White space beyond ASCII, and within it. -/
def blanks : Ranges where
  intervals := #[
    (0x9, 0xD), (0x1C, 0x20), (0x85, 0x85), (0xA0, 0xA0), (0x1680, 0x1680), (0x2000, 0x200A),
    (0x2028, 0x2029), (0x202F, 0x202F), (0x205F, 0x205F), (0x3000, 0x3000)]

/-- Whether a character is white space. -/
def isBlank (c : Char) : Bool :=
  if c.toNat < 128 then
    c.toNat == 32 || (9 ≤ c.toNat && c.toNat ≤ 13) || (28 ≤ c.toNat && c.toNat ≤ 31)
  else blanks.contains c.toNat

/-- Drops leading white space. -/
def trimLeft (s : List Char) : List Char := s.dropWhile isBlank

/-- Drops trailing white space. -/
def trimRight (s : List Char) : List Char := (s.reverse.dropWhile isBlank).reverse

/-- Drops white space at both ends. -/
def trim (s : List Char) : List Char := trimRight (trimLeft s)

/-- The words of a text: its maximal runs of characters that are not white space. -/
def words (s : List Char) : List (List Char) :=
  match s.foldr step ([], []) with
  | (w, ws) => if w.isEmpty then ws else w :: ws
where
  /-- Extends the word under construction, or closes it at white space. -/
  step (c : Char) : List Char × List (List Char) → List Char × List (List Char)
    | (w, ws) =>
      if isBlank c then ([], if w.isEmpty then ws else w :: ws) else (c :: w, ws)

end LangId.Text
