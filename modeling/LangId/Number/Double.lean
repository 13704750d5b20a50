/-!
# Doubles and ratios

Between a double and the number that it stands for, a mantissa times a power of two, the steps are
exact. The other way a ratio is rounded to the nearest double, and to the even one of two that are
equally near. Nothing here depends on machine arithmetic, so every step can be computed by hand.
-/
namespace LangId.Number

/-- The nearest integer to `num / den`, the even one of two that are equally near. -/
def roundRatio (num den : Nat) : Nat :=
  let q := num / den
  let twice := 2 * (num % den)
  if den < twice then q + 1 else if twice < den then q else q + q % 2

/-- A number given as a mantissa times a power of two. -/
structure Binary where
  negative : Bool
  mantissa : Nat
  exponent : Int
  deriving Repr, DecidableEq

namespace Binary

/-- The number as a ratio, without its sign. -/
def ratio (b : Binary) : Nat × Nat :=
  if b.exponent < 0 then (b.mantissa, Nat.pow 2 b.exponent.natAbs)
  else (b.mantissa * Nat.pow 2 b.exponent.natAbs, 1)

end Binary

/-- What a double stands for. -/
inductive Reading where
  | finite (b : Binary)
  | infinite (negative : Bool)
  | notNumber
  deriving Repr, DecidableEq

/-- Reads a double. -/
def Reading.ofFloat (x : Float) : Reading :=
  let bits : Nat := x.toBits.toNat
  let negative := bits / Nat.pow 2 63 == 1
  let biased : Nat := bits / Nat.pow 2 52 % 2048
  let fraction : Nat := bits % Nat.pow 2 52
  if biased == 2047 then if fraction == 0 then .infinite negative else .notNumber
  else if biased == 0 then .finite ⟨negative, fraction, -1074⟩
  else .finite ⟨negative, fraction + Nat.pow 2 52, (biased : Int) - 1075⟩

/-- The bits of the positive infinity. -/
def infinityBits : Nat := 2047 * Nat.pow 2 52

/-- The bits of a double that is no number. -/
def notNumberBits : Nat := infinityBits + Nat.pow 2 51

/-- The double of a sign and the remaining 63 bits. -/
def floatOfBits (negative : Bool) (bits : Nat) : Float :=
  Float.ofBits ((if negative then Nat.pow 2 63 else 0) + bits).toUInt64

/-- The exponent of the last place of the double nearest to `num / den`. -/
def lastPlace (num den : Nat) : Int :=
  let e : Int := (num.log2 : Int) - den.log2 - 52
  let short :=
    if e < 0 then num * Nat.pow 2 e.natAbs < den * Nat.pow 2 52
    else num < den * Nat.pow 2 e.natAbs * Nat.pow 2 52
  max (if short then e - 1 else e) (-1074)

/-- The double nearest to a ratio; past the largest double, infinity. -/
def ofRatio (negative : Bool) (num den : Nat) : Float :=
  if num == 0 then floatOfBits negative 0
  else
    let e := lastPlace num den
    let m :=
      if e < 0 then roundRatio (num * Nat.pow 2 e.natAbs) den
      else roundRatio num (den * Nat.pow 2 e.natAbs)
    let bits :=
      if m < Nat.pow 2 52 then m else (e + 1075).toNat * Nat.pow 2 52 + (m - Nat.pow 2 52)
    floatOfBits negative (min bits infinityBits)

/-- The double nearest to an integer. -/
def ofInt (n : Int) : Float := ofRatio (n < 0) n.natAbs 1

end LangId.Number
