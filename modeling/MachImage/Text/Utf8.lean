/-!
# UTF-8 with replacement

Names in an image are meant to be UTF-8, but nothing forces them to be.
`decodeLossy` reads any list of bytes as text: well-formed sequences give
their characters, and every longest run of bytes that starts a character but
does not finish it gives one replacement character U+FFFD, as does a byte
that starts none.

The decoder is a machine that takes one byte at a time.  Between characters
its state is `none`; inside one it is a `Pending` character, which knows the
range of its next byte, so that overlong forms, surrogates and numbers above
U+10FFFF are refused at the first byte that rules them out.
-/

namespace MachImage.Utf8

/-- The character that stands for bytes that are not UTF-8. -/
def replacement : Char := '\uFFFD'

/-- A character of which some bytes have been read. -/
structure Pending where
  /-- How many bytes are still to come; never zero. -/
  missing : Nat
  /-- The number formed by the bytes read so far. -/
  bits : Nat
  /-- The least value the next byte may have. -/
  low : Nat := 0x80
  /-- The greatest value the next byte may have. -/
  high : Nat := 0xBF
  deriving DecidableEq, Repr

/-- A byte between characters: what it adds to the text, and the character it starts. -/
def start (b : UInt8) : List Char × Option Pending :=
  let n := b.toNat
  if n < 0x80 then ([Char.ofNat n], none)
  else if n < 0xC2 then ([replacement], none)
  else if n < 0xE0 then ([], some { missing := 1, bits := n - 0xC0 })
  else if n = 0xE0 then ([], some { missing := 2, bits := 0, low := 0xA0 })
  else if n = 0xED then ([], some { missing := 2, bits := 0xD, high := 0x9F })
  else if n < 0xF0 then ([], some { missing := 2, bits := n - 0xE0 })
  else if n = 0xF0 then ([], some { missing := 3, bits := 0, low := 0x90 })
  else if n < 0xF4 then ([], some { missing := 3, bits := n - 0xF0 })
  else if n = 0xF4 then ([], some { missing := 3, bits := 4, high := 0x8F })
  else ([replacement], none)

/-- One byte: what it adds to the text, and the state after it.  A byte that does not continue the
pending character is read again as the first of the next one. -/
def step : Option Pending → UInt8 → List Char × Option Pending
  | none, b => start b
  | some p, b =>
    if p.low ≤ b.toNat ∧ b.toNat ≤ p.high then
      let bits := p.bits * 64 + (b.toNat - 0x80)
      if p.missing = 1 then ([Char.ofNat bits], none)
      else ([], some { missing := p.missing - 1, bits })
    else
      let (text, state) := start b
      (replacement :: text, state)

/-- The text of the bytes from a state on; a character left unfinished at the end is replaced. -/
def decodeFrom : Option Pending → List UInt8 → List Char
  | none, [] => []
  | some _, [] => [replacement]
  | state, b :: bs => (step state b).1 ++ decodeFrom (step state b).2 bs

/-- The text of any bytes. -/
def decodeLossy (bs : List UInt8) : String := String.ofList (decodeFrom none bs)

end MachImage.Utf8
