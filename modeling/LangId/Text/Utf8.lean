/-!
# UTF-8

Two readings of an octet string as UTF-8: a strict one, and one that puts the replacement character
for every maximal stretch of octets that begins a character and cannot continue it. Both run one
machine, whose state between two octets says which octets may come next.
-/
namespace LangId.Text.Utf8

/-- A character that has begun and not ended: the bits read, the octets due after the next one, and
the bounds of the next one. -/
structure Pending where
  value : Nat
  due : Nat
  low : Nat
  high : Nat
  deriving Repr, DecidableEq

/-- What a first octet says: a whole character, the start of a longer one, or nothing valid. -/
inductive Lead where
  | whole (c : Char)
  | start (p : Pending)
  | invalid

/-- Reads a first octet. Over-long forms, surrogates and values past U+10FFFF are shut out by the
bounds of the second octet. -/
def lead (b : UInt8) : Lead :=
  let n := b.toNat
  if n < 0x80 then .whole (Char.ofNat n)
  else if n < 0xC2 then .invalid
  else if n < 0xE0 then .start ⟨n - 0xC0, 0, 0x80, 0xBF⟩
  else if n < 0xF0 then
    .start ⟨n - 0xE0, 1, if n == 0xE0 then 0xA0 else 0x80, if n == 0xED then 0x9F else 0xBF⟩
  else if n < 0xF5 then
    .start ⟨n - 0xF0, 2, if n == 0xF0 then 0x90 else 0x80, if n == 0xF4 then 0x8F else 0xBF⟩
  else .invalid

/-- The character that stands for octets that cannot be read. -/
def replacement : Char := '\uFFFD'

/-- The state of the machine: the character that has begun, what has been written, last character
first, and whether all octets so far could be read. -/
structure Decoder where
  pending : Option Pending := none
  written : List Char := []
  clean : Bool := true

/-- Takes an octet that begins a character. -/
def Decoder.begin (d : Decoder) (b : UInt8) : Decoder :=
  match lead b with
  | .whole c => { d with pending := none, written := c :: d.written }
  | .start p => { d with pending := some p }
  | .invalid => { pending := none, written := replacement :: d.written, clean := false }

/-- Takes one octet. -/
def Decoder.step (d : Decoder) (b : UInt8) : Decoder :=
  match d.pending with
  | none => d.begin b
  | some p =>
    if p.low ≤ b.toNat && b.toNat ≤ p.high then
      let value := p.value * 64 + (b.toNat - 0x80)
      match p.due with
      | 0 => { d with pending := none, written := Char.ofNat value :: d.written }
      | due + 1 => { d with pending := some ⟨value, due, 0x80, 0xBF⟩ }
    else
      Decoder.begin { pending := none, written := replacement :: d.written, clean := false } b

/-- Ends the text: a character that has begun is replaced. -/
def Decoder.finish (d : Decoder) : Decoder :=
  match d.pending with
  | none => d
  | some _ => { pending := none, written := replacement :: d.written, clean := false }

/-- Runs the machine over an octet string. -/
def run (bytes : List UInt8) : Decoder := (bytes.foldl Decoder.step {}).finish

/-- Decodes an octet string, one replacement character for each maximal invalid stretch. -/
def decodeLossy (bytes : List UInt8) : List Char := (run bytes).written.reverse

/-- Decodes an octet string that is UTF-8 throughout. -/
def decode? (bytes : List UInt8) : Option (List Char) :=
  let d := run bytes
  if d.clean then some d.written.reverse else none

/-- The octets of a character. -/
def encodeChar (c : Char) : List UInt8 :=
  let n := c.toNat
  if n < 0x80 then [n.toUInt8]
  else if n < 0x800 then [(0xC0 + n / 64).toUInt8, (0x80 + n % 64).toUInt8]
  else if n < 0x10000 then
    [(0xE0 + n / 4096).toUInt8, (0x80 + n / 64 % 64).toUInt8, (0x80 + n % 64).toUInt8]
  else
    [(0xF0 + n / 262144).toUInt8, (0x80 + n / 4096 % 64).toUInt8, (0x80 + n / 64 % 64).toUInt8,
      (0x80 + n % 64).toUInt8]

/-- The octets of a text. -/
def encode (s : List Char) : List UInt8 := s.flatMap encodeChar

end LangId.Text.Utf8
