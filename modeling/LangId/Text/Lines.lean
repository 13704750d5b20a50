/-!
# Lines and pieces of a text

Two ways to cut a text: at one separator character, or at every character that ends a line. The
first loses nothing: writing the separator between the pieces gives the text back.
-/
namespace LangId.Text

/-- Puts a character in front of the first piece. -/
def consFirst (c : Char) : List (List Char) → List (List Char)
  | [] => [[c]]
  | piece :: pieces => (c :: piece) :: pieces

/-- The pieces of a text between the occurrences of a separator; always at least one. -/
def splitOn (separator : Char) (s : List Char) : List (List Char) :=
  s.foldr (fun c pieces => if c == separator then [] :: pieces else consFirst c pieces) [[]]

/-- The text up to the first separator. -/
def upTo (separator : Char) (s : List Char) : List Char := s.takeWhile (· != separator)

/-- The text behind the first separator, empty if there is none. -/
def behind (separator : Char) (s : List Char) : List Char := (s.dropWhile (· != separator)).drop 1

/-- Writes a separator between texts. -/
def joinWith (separator : List Char) : List (List Char) → List Char
  | [] => []
  | [piece] => piece
  | piece :: pieces => piece ++ separator ++ joinWith separator pieces

/-- Whether a character ends a line: line feed, vertical tab, form feed, carriage return, the
separators of files, groups and records, next line, and the line and paragraph separators. -/
def isLineEnd (c : Char) : Bool :=
  let n := c.toNat
  (10 ≤ n && n ≤ 13) || (0x1C ≤ n && n ≤ 0x1E) || n == 0x85 || n == 0x2028 || n == 0x2029

/-- One step of `lines`, taken from the end of the text: the lines behind the character, the first
of them still open, and whether a line feed comes next. -/
def lineStep (c : Char) : List (List Char) × Bool → List (List Char) × Bool
  | (found, beforeFeed) =>
    if c == '\r' && beforeFeed then (found, false)
    else if isLineEnd c then ([] :: found, c == '\n')
    else (consFirst c found, false)

/-- The lines of a text without their ends. A carriage return and a line feed behind it are one
end, and nothing follows the last end. -/
def lines (s : List Char) : List (List Char) := (s.foldr lineStep ([], false)).1

/-- One step of `unifyEnds`, taken from the end of the text: what is written behind the character,
and whether a line feed comes next. -/
def unifyStep (c : Char) : List Char × Bool → List Char × Bool
  | (found, beforeFeed) =>
    if c == '\r' then (if beforeFeed then found else '\n' :: found, false)
    else (c :: found, c == '\n')

/-- A text with all its carriage returns, alone or before a line feed, turned into line feeds. -/
def unifyEnds (s : List Char) : List Char := (s.foldr unifyStep ([], false)).1

theorem splitOn_ne_nil (separator : Char) (s : List Char) : splitOn separator s ≠ [] := by
  cases s with
  | nil => simp [splitOn]
  | cons c rest =>
    rw [splitOn, List.foldr_cons]
    split
    · simp
    · unfold consFirst
      split <;> simp

theorem joinWith_cons (separator piece : List Char) {pieces : List (List Char)} (h : pieces ≠ []) :
    joinWith separator (piece :: pieces) = piece ++ separator ++ joinWith separator pieces := by
  cases pieces with
  | nil => exact absurd rfl h
  | cons _ _ => rfl

theorem joinWith_consFirst (separator : List Char) (c : Char) (pieces : List (List Char)) :
    joinWith separator (consFirst c pieces) = c :: joinWith separator pieces := by
  match pieces with
  | [] => rfl
  | [_] => rfl
  | _ :: _ :: _ => rfl

/-- Cutting a text at a separator loses nothing. -/
theorem joinWith_splitOn (separator : Char) (s : List Char) :
    joinWith [separator] (splitOn separator s) = s := by
  induction s with
  | nil => rfl
  | cons c rest ih =>
    have tail : splitOn separator (c :: rest) =
        if c == separator then [] :: splitOn separator rest
        else consFirst c (splitOn separator rest) := rfl
    rw [tail]
    split
    · next h => rw [joinWith_cons _ _ (splitOn_ne_nil _ _), ih]; simp_all
    · rw [joinWith_consFirst, ih]

end LangId.Text
