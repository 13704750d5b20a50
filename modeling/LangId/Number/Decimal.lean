import LangId.Number.Double
import LangId.Text.Digit

/-!
# Decimal texts of doubles

Three texts: with a fixed number of decimal places, with the fewest digits that read back as the
same double, and the reading of a decimal text. All are computed from the exact value.
-/
namespace LangId.Number

open Text

/-- The digits of a natural number in base ten. -/
def digitsOf (n : Nat) : List Char := Nat.toDigits 10 n

/-- Puts zeros in front up to a number of digits. -/
def padded (count : Nat) (ds : List Char) : List Char :=
  List.replicate (count - ds.length) '0' ++ ds

/-- A text with a fixed number of decimal places, rounded from the exact value, half to even.
Zero has no sign. -/
def fixed (places : Nat) (x : Float) : String :=
  match Reading.ofFloat x with
  | .notNumber => "nan"
  | .infinite negative => if negative then "-inf" else "inf"
  | .finite b =>
    let (num, den) := b.ratio
    let scaled := roundRatio (num * Nat.pow 10 places) den
    let body := digitsOf (scaled / Nat.pow 10 places) ++
      (if places == 0 then [] else '.' :: padded places (digitsOf (scaled % Nat.pow 10 places)))
    String.ofList (if b.negative && scaled != 0 then '-' :: body else body)

/-- A decimal number: digits, the first of them not zero, with the point before all of them, and a
power of ten. -/
structure Decimal where
  digits : List Char
  point : Int
  deriving Repr, DecidableEq

/-- The power of ten with `10 ^ (k - 1) ≤ num / den < 10 ^ k`. -/
def magnitude (num den : Nat) : Int :=
  if den ≤ num then (digitsOf (num / den)).length
  else
    -- the least shift that brings the ratio to at least one
    let shift := (digitsOf (den / num)).length
    if den ≤ num * Nat.pow 10 (shift - 1) then -((shift - 1 : Nat) : Int) + 1
    else -(shift : Int) + 1

/-- `num / den` shifted by a power of ten, as a ratio. -/
def shifted (num den : Nat) (k : Int) : Nat × Nat :=
  if k < 0 then (num, den * Nat.pow 10 k.natAbs) else (num * Nat.pow 10 k.natAbs, den)

/-- Reads back a number of units in a decimal place. -/
def readBack (units : Nat) (place : Int) : Float :=
  let (num, den) := shifted units 1 place
  ofRatio false num den

/-- The units of a decimal place that are nearest to a ratio and read back as the same double. -/
def nearestUnits? (num den : Nat) (place : Int) : Option Nat :=
  let bits := (ofRatio false num den).toBits
  let (n, d) := shifted num den (-place)
  let low := n / d
  let hits (units : Nat) : Bool := (readBack units place).toBits == bits
  let near := roundRatio n d
  if hits near then some near
  else if hits low then some low
  else if hits (low + 1) then some (low + 1)
  else none

/-- The fewest digits that read back as the same double, looked for from a number of digits on. -/
def shortestFrom (num den : Nat) (point : Int) : Nat → Nat → Decimal
  | 0, count => ⟨digitsOf (roundRatio (shifted num den (count - point)).1
      (shifted num den (count - point)).2), point⟩
  | more + 1, count =>
    match nearestUnits? num den (point - count) with
    | some units =>
      -- rounding up may add a digit
      let ds := digitsOf units
      ⟨ds, point + ((ds.length : Int) - count)⟩
    | none => shortestFrom num den point more (count + 1)

/-- The fewest digits that read back as the same double. -/
def shortest (b : Binary) : Decimal :=
  let (num, den) := b.ratio
  if num == 0 then ⟨['0'], 1⟩ else
    let d := shortestFrom num den (magnitude num den) 17 1
    let ds := (d.digits.reverse.dropWhile (· == '0')).reverse
    { d with digits := ds }

/-- The text of a decimal number: positional for magnitudes from `10 ^ -4` up to `10 ^ 16`, and with
an exponent of at least two digits beyond. -/
def Decimal.text (d : Decimal) : List Char :=
  if -4 < d.point && d.point ≤ 16 then
    if d.point ≤ 0 then '0' :: '.' :: List.replicate d.point.natAbs '0' ++ d.digits
    else
      let whole := d.digits.take d.point.toNat
      let fraction := d.digits.drop d.point.toNat
      whole ++ List.replicate (d.point.toNat - whole.length) '0' ++
        '.' :: (if fraction.isEmpty then ['0'] else fraction)
  else
    let exponent := d.point - 1
    let mantissa := match d.digits with
      | [] => []
      | [first] => [first]
      | first :: rest => first :: '.' :: rest
    mantissa ++ 'e' :: (if exponent < 0 then '-' else '+') :: padded 2 (digitsOf exponent.natAbs)

/-- The shortest text that reads back as the same double. -/
def text (x : Float) : String :=
  match Reading.ofFloat x with
  | .notNumber => "nan"
  | .infinite negative => if negative then "-inf" else "inf"
  | .finite b =>
    let body := (shortest b).text
    String.ofList (if b.negative then '-' :: body else body)

/-- A decimal text apart: whether it has a minus sign, its digits without the point, and the power
of ten that they are multiplied with. -/
structure Written where
  negative : Bool
  units : Nat
  place : Int
  deriving Repr, DecidableEq

/-- The value of an ASCII digit. -/
def digitValue (c : Char) : Nat := c.toNat - 48

/-- The number that ASCII digits spell. -/
def natOf (ds : List Char) : Nat := ofDigits 10 (ds.map digitValue)

/-- Takes a sign off a text. -/
def splitSign : List Char → Bool × List Char
  | '-' :: rest => (true, rest)
  | '+' :: rest => (false, rest)
  | s => (false, s)

/-- Reads a decimal text with an optional sign, point and exponent. At least one digit stands before
or behind the point. -/
def readWritten? (s : List Char) : Option Written := do
  let (negative, s) := splitSign s
  let whole := s.takeWhile isAsciiDigit
  let s := s.dropWhile isAsciiDigit
  let (fraction, s) := match s with
    | '.' :: rest => (rest.takeWhile isAsciiDigit, rest.dropWhile isAsciiDigit)
    | _ => ([], s)
  if whole.isEmpty && fraction.isEmpty then none
  let units := natOf (whole ++ fraction)
  match s with
  | [] => some ⟨negative, units, -(fraction.length : Int)⟩
  | e :: rest =>
    if e == 'e' || e == 'E' then
      let (down, ds) := splitSign rest
      if ds.isEmpty || !ds.all isAsciiDigit then none
      else
        let exponent : Int := if down then -(natOf ds : Int) else natOf ds
        some ⟨negative, units, exponent - fraction.length⟩
    else none

/-- The double nearest to a decimal text. Exponents far out of range are cut, as they cannot change
the double. -/
def Written.toFloat (w : Written) : Float :=
  let size : Int := (digitsOf w.units).length
  if w.units == 0 || w.place + size < -400 then floatOfBits w.negative 0
  else if 400 < w.place + size then floatOfBits w.negative infinityBits
  else
    let (num, den) := shifted w.units 1 w.place
    ofRatio w.negative num den

/-- The words for what is not a finite number, in any case. -/
def readSpecial? (s : List Char) : Option Float :=
  let (negative, s) := splitSign s
  let word := s.map fun c => if 65 ≤ c.toNat && c.toNat ≤ 90 then Char.ofNat (c.toNat + 32) else c
  if word == "inf".toList || word == "infinity".toList then
    some (floatOfBits negative infinityBits)
  else if word == "nan".toList then some (floatOfBits negative notNumberBits)
  else none

/-- Reads the text of a double. -/
def readFloat? (s : List Char) : Option Float :=
  match readWritten? s with
  | some w => some w.toFloat
  | none => readSpecial? s

end LangId.Number
