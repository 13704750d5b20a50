import LangId.Text.CaseTable

/-!
# Lower and upper case

`lower` is the full lower-case mapping of a text: character by character, but a capital sigma at
the end of a word becomes the final form, and the dotted capital I keeps its dot as a mark.
-/
namespace LangId.Text

/-- Looks a code point up in a table of segments by halving, as `Ranges.search` does. -/
def CaseSegment.search (table : Array CaseSegment) (n : Nat) (low high : Nat) : Nat → Nat
  | 0 => n
  | rounds + 1 =>
    if low < high then
      let middle := (low + high) / 2
      match table[middle]? with
      | none => n
      | some s =>
        if n < s.first then search table n low middle rounds
        else if s.last < n then search table n (middle + 1) high rounds
        else (s.image? n).getD n
    else n

/-- The simple lower-case mapping on code points. -/
def lowerCode (n : Nat) : Nat :=
  if n < 128 then if 65 ≤ n && n ≤ 90 then n + 32 else n
  else CaseSegment.search lowerSegments n 0 lowerSegments.size (lowerSegments.size.log2 + 1)

/-- The simple upper-case mapping on code points. -/
def upperCode (n : Nat) : Nat :=
  if n < 128 then if 97 ≤ n && n ≤ 122 then n - 32 else n
  else CaseSegment.search upperSegments n 0 upperSegments.size (upperSegments.size.log2 + 1)

/-- The lower-case mapping on code points that leaves all but ASCII as it is. -/
def asciiLowerCode (n : Nat) : Nat := if 65 ≤ n && n ≤ 90 then n + 32 else n

/-- All code points whose simple lower-case mapping is `m`. -/
def lowerPreimages (m : Nat) : List Nat :=
  let own := if lowerCode m == m then [m] else []
  own ++ lowerSegments.toList.filterMap (·.preimage? m)

/-- The further lower-case spellings of a lower-case character. -/
def equivalentsOf (n : Nat) : List Nat := (equivalentLowers.lookup n).getD []

/-- Whether a case-insensitive comparison treats a character as cased. -/
def isCasedCode (n : Nat) : Bool :=
  if n < 128 then (65 ≤ n && n ≤ 90) || (97 ≤ n && n ≤ 122) else casedCharacters.contains n

/-- Whether the first character that the final-sigma rule does not look through is cased. -/
def nextIsCased : List Char → Bool
  | [] => false
  | c :: rest =>
    if caseIgnorable.contains c.toNat then nextIsCased rest else casedLetters.contains c.toNat

/-- Lower-cases a text; the first argument holds what stands before it, last character first. -/
def lowerAfter (before : List Char) : List Char → List Char
  | [] => []
  | c :: rest =>
    if c.toNat < 128 then Char.ofNat (lowerCode c.toNat) :: lowerAfter (c :: before) rest
    else if c.toNat == 0x3A3 then
      (if nextIsCased before && !nextIsCased rest then '\u03C2' else '\u03C3')
        :: lowerAfter (c :: before) rest
    else if c.toNat == 0x130 then 'i' :: '\u0307' :: lowerAfter (c :: before) rest
    else Char.ofNat (lowerCode c.toNat) :: lowerAfter (c :: before) rest

/-- The lower-case form of a text. -/
def lowerChars (s : List Char) : List Char := lowerAfter [] s

/-- The lower-case form of a text. -/
def lower (s : String) : String := String.ofList (lowerChars s.toList)

end LangId.Text
