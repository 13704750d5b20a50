/-!
# Base 64

Octets written with sixty-four characters, four of them for three octets. Characters that do not
belong to the alphabet are passed over.
-/
namespace LangId.Text.Base64

/-- The alphabet. -/
def alphabet : List Char :=
  "ABCDEFGHIJKLMNOPQRSTUVWXYZabcdefghijklmnopqrstuvwxyz0123456789+/".toList

/-- The value of a character. -/
def value? (c : Char) : Option Nat := alphabet.findIdx? (· == c)

/-- Decodes a text. `place` says how many characters of a group of four have been read, `carry`
holds the bits of them that are due, and `pads` counts the signs of padding; the octets found are
kept with the latest first. -/
def go (place carry pads : Nat) (found : List UInt8) : List Char → Option (List UInt8)
  | [] => if place == 0 then some found.reverse else none
  | '=' :: rest =>
    if 2 ≤ place && 4 ≤ place + pads + 1 then some found.reverse
    else go place carry (if 2 ≤ place then pads + 1 else pads) found rest
  | c :: rest =>
    match value? c with
    | none => go place carry pads found rest
    | some v =>
      match place with
      | 0 => go 1 v 0 found rest
      | 1 => go 2 (v % 16) 0 (UInt8.ofNat (carry * 4 + v / 16) :: found) rest
      | 2 => go 3 (v % 4) 0 (UInt8.ofNat (carry * 16 + v / 4) :: found) rest
      | _ => go 0 0 0 (UInt8.ofNat (carry * 64 + v) :: found) rest

/-- The octets of a text; none if its last group is not complete. -/
def decode? (s : List Char) : Option (List UInt8) := go 0 0 0 [] s

end LangId.Text.Base64
