import MachImage.Enumeration
import MachImage.Flags

/-!
# Opcodes of bind streams

Each instruction of a bind stream starts with a byte that holds an opcode in
its high nibble and an immediate operand in its low nibble.
-/

namespace MachImage.BindStream

/-- The operations of a bind stream. -/
inductive Opcode where
  | done | setOrdinalImmediate | setOrdinalUnsigned | setOrdinalSpecial | setSymbol | setType
  | setAddend | setSegmentAndOffset | addAddress | bind | bindAddAddress | bindAddScaled
  | bindRepeated
  deriving DecidableEq, Repr

instance : Coded Opcode UInt8 where
  code
    | .done => 0x00
    | .setOrdinalImmediate => 0x10
    | .setOrdinalUnsigned => 0x20
    | .setOrdinalSpecial => 0x30
    | .setSymbol => 0x40
    | .setType => 0x50
    | .setAddend => 0x60
    | .setSegmentAndOffset => 0x70
    | .addAddress => 0x80
    | .bind => 0x90
    | .bindAddAddress => 0xA0
    | .bindAddScaled => 0xB0
    | .bindRepeated => 0xC0
  ofCode?
    | 0x00 => some .done
    | 0x10 => some .setOrdinalImmediate
    | 0x20 => some .setOrdinalUnsigned
    | 0x30 => some .setOrdinalSpecial
    | 0x40 => some .setSymbol
    | 0x50 => some .setType
    | 0x60 => some .setAddend
    | 0x70 => some .setSegmentAndOffset
    | 0x80 => some .addAddress
    | 0x90 => some .bind
    | 0xA0 => some .bindAddAddress
    | 0xB0 => some .bindAddScaled
    | 0xC0 => some .bindRepeated
    | _ => none
  name
    | .done => "Done"
    | .setOrdinalImmediate => "SetDylibOrdinalImm"
    | .setOrdinalUnsigned => "SetDylibOrdinalUleb"
    | .setOrdinalSpecial => "SetDylibSpecialImm"
    | .setSymbol => "SetSymbolTrailingFlagsImm"
    | .setType => "SetTypeImm"
    | .setAddend => "SetAddendSleb"
    | .setSegmentAndOffset => "SetSegmentAndOffsetUleb"
    | .addAddress => "AddAddrUleb"
    | .bind => "DoBind"
    | .bindAddAddress => "DoBindAddAddrUleb"
    | .bindAddScaled => "DoBindAddAddrImmScaled"
    | .bindRepeated => "DoBindUlebTimesSkippingUleb"

instance : LawfulCoded Opcode where
  ofCode?_code a := by cases a <;> rfl
  code_of_ofCode? h := by
    simp only [Coded.ofCode?] at h
    split at h <;> cases h <;> rfl

/-- The opcode nibble of a byte, left in place. -/
def opcodeBits (b : UInt8) : UInt8 := b &&& 0xF0

/-- The immediate nibble of a byte. -/
def immediateBits (b : UInt8) : UInt8 := b &&& 0x0F

/-- The opcode of a byte. -/
def Opcode.ofByte? (b : UInt8) : Option Opcode := Coded.ofCode? (opcodeBits b)

/-- What is stored at a bound location. -/
inductive BindType where
  | pointer
  | textAbsolute32
  | textPcrel32
  /-- Any other number. -/
  | other (raw : UInt8)
  deriving DecidableEq, Repr

namespace BindType

/-- The type given by an immediate operand. -/
def ofImmediate (imm : UInt8) : BindType :=
  if imm = 1 then .pointer
  else if imm = 2 then .textAbsolute32
  else if imm = 3 then .textPcrel32
  else .other imm

/-- How a type is shown. -/
def text : BindType → String
  | .pointer => "Pointer"
  | .textAbsolute32 => "TextAbsolute32"
  | .textPcrel32 => "TextPcrel32"
  | .other raw => "Other(" ++ toString raw.toNat ++ ")"

end BindType

/-- Properties of a bound symbol. -/
def symbolFlags : FlagFamily := [("WEAK_IMPORT", 0x1), ("NON_WEAK_DEFINITION", 0x8)]

end MachImage.BindStream
