/-!
# Hexadecimal numerals

Offsets, flags and magic numbers are shown in base sixteen: lower case behind
`0x`, with as few digits as the number needs or padded with zeros to a least
count.  Bytes of an identifier are shown as two upper-case digits each.
-/

namespace MachImage.Hex

/-- The lower-case digits of a number, padded with zeros on the left to `width`. -/
def padded (width n : Nat) : String :=
  let digits := Nat.toDigits 16 n
  String.ofList (List.replicate (width - digits.length) '0' ++ digits)

/-- A number behind `0x`, with at least `width` digits. -/
def numeralPadded (width n : Nat) : String := "0x" ++ padded width n

/-- A number behind `0x`, with no leading zeros. -/
def numeral (n : Nat) : String := numeralPadded 1 n

/-- The upper-case digit of a number below sixteen. -/
def upperDigit (n : Nat) : Char := (Nat.digitChar n).toUpper

/-- A byte as two upper-case digits. -/
def upperByte (b : UInt8) : List Char := [upperDigit (b.toNat / 16), upperDigit (b.toNat % 16)]

end MachImage.Hex
