namespace CommitVerdict

abbrev Bytes := List UInt8

namespace Utf8

def replacement : Char := '\uFFFD'

def encodeChars (cs : List Char) : Bytes := cs.flatMap String.utf8EncodeChar

def encode (s : String) : Bytes := encodeChars s.toList

/-- A character of which some bytes have been read. -/
structure Pending where
  /-- Bytes still owed, at least one. -/
  owed : Nat
  /-- The least next byte that continues the character. -/
  low : UInt8
  /-- The greatest next byte that continues the character. -/
  high : UInt8
  /-- The bits read so far. -/
  bits : Nat
deriving DecidableEq, Repr

/-- Between characters, or inside one. -/
abbrev State := Option Pending

/-- What a byte does between characters. -/
def start (b : UInt8) : State × List Char :=
  let bits (mask : UInt8) : Nat := (b &&& mask).toNat
  if b < 0x80 then (none, [Char.ofNat b.toNat])
  else if b < 0xC2 then (none, [replacement])
  else if b < 0xE0 then (some ⟨1, 0x80, 0xBF, bits 0x1F⟩, [])
  else if b = 0xE0 then (some ⟨2, 0xA0, 0xBF, 0⟩, [])
  else if b = 0xED then (some ⟨2, 0x80, 0x9F, bits 0x0F⟩, [])
  else if b < 0xF0 then (some ⟨2, 0x80, 0xBF, bits 0x0F⟩, [])
  else if b = 0xF0 then (some ⟨3, 0x90, 0xBF, 0⟩, [])
  else if b < 0xF4 then (some ⟨3, 0x80, 0xBF, bits 0x07⟩, [])
  else if b = 0xF4 then (some ⟨3, 0x80, 0x8F, bits 0x07⟩, [])
  else (none, [replacement])

/-- Takes one byte: the next state and the characters that it completes. A byte that does not
continue the character in progress ends it as a replacement and is then taken afresh. -/
def step : State → UInt8 → State × List Char
  | none, b => start b
  | some p, b =>
    if p.low ≤ b && b ≤ p.high then
      let bits := p.bits * 64 + (b &&& 0x3F).toNat
      if p.owed ≤ 1 then (none, [Char.ofNat bits])
      else (some ⟨p.owed - 1, 0x80, 0xBF, bits⟩, [])
    else
      let (next, chars) := start b
      (next, replacement :: chars)

/-- The characters of the remaining bytes; a character that the end cuts short is replaced. -/
def run : State → Bytes → List Char
  | none, [] => []
  | some _, [] => [replacement]
  | q, b :: bs => (step q b).2 ++ run (step q b).1 bs

/-- Decodes any byte sequence. Each longest sequence that begins a character but does not end one becomes a
single replacement character, and so does each byte that can begin none. -/
def decodeLossy (bs : Bytes) : List Char := run none bs

/-- Decodes a byte sequence that is UTF-8 throughout. -/
def decode? (bs : Bytes) : Option (List Char) :=
  let cs := decodeLossy bs
  if encodeChars cs = bs then some cs else none

/-- The text of any byte sequence, replacing what is no UTF-8. -/
def text (bs : Bytes) : String := String.ofList (decodeLossy bs)

end Utf8

end CommitVerdict
