import MachImage.BindStream.Opcode
import MachImage.Error
import MachImage.Leb128
import MachImage.LibraryOrdinal
import MachImage.Text.Name

/-!
# Instructions of bind streams

An instruction is an operation with its operands and the immediate nibble of
its first byte, which some operations ignore.  `Operation.decode` reads the
operands that follow the first byte, and `Instruction.encode` writes an
instruction.

Whether an instruction makes sense does not depend on what came before it:
`Instruction.objection` is the reason to refuse one.
-/

namespace MachImage.BindStream

/-- An operation with the operands that follow its first byte. -/
inductive Operation where
  /-- The end of an entry; nothing happens. -/
  | done
  /-- The library is the one at the place given by the immediate. -/
  | setOrdinalImmediate
  | setOrdinalUnsigned (ordinal : UInt64)
  /-- The library is a special one: the immediate is zero or a negative number of four bits. -/
  | setOrdinalSpecial
  /-- The immediate holds the flags. -/
  | setSymbol (name : String)
  | setType
  | setAddend (addend : Int64)
  /-- The immediate is the place of the segment. -/
  | setSegmentAndOffset (offset : UInt64)
  | addAddress (delta : UInt64)
  | bind
  | bindAddAddress (delta : UInt64)
  /-- The immediate is the count of pointers to pass over. -/
  | bindAddScaled
  | bindRepeated (count skip : UInt64)
  deriving DecidableEq, Repr

/-- An operation and the immediate nibble of its first byte. -/
structure Instruction where
  operation : Operation
  immediate : UInt8
  deriving DecidableEq, Repr

namespace Operation

/-- The opcode of an operation. -/
def opcode : Operation → Opcode
  | done => .done
  | setOrdinalImmediate => .setOrdinalImmediate
  | setOrdinalUnsigned _ => .setOrdinalUnsigned
  | setOrdinalSpecial => .setOrdinalSpecial
  | setSymbol _ => .setSymbol
  | setType => .setType
  | setAddend _ => .setAddend
  | setSegmentAndOffset _ => .setSegmentAndOffset
  | addAddress _ => .addAddress
  | bind => .bind
  | bindAddAddress _ => .bindAddAddress
  | bindAddScaled => .bindAddScaled
  | bindRepeated _ _ => .bindRepeated

/-- The unsigned operand at the front of the bytes, which start at `offset`. -/
def unsignedOperand (offset : Nat) (bs : List UInt8) : Except Error (UInt64 × Nat) :=
  match Leb128.unsigned? bs with
  | some operand => .ok operand
  | none => .error (.invalidUnsignedLeb offset)

/-- The signed operand at the front of the bytes, which start at `offset`. -/
def signedOperand (offset : Nat) (bs : List UInt8) : Except Error (Int64 × Nat) :=
  match Leb128.signed? bs with
  | some operand => .ok operand
  | none => .error (.invalidSignedLeb offset)

/-- The name at the front of the bytes, which start at `offset`. -/
def nameOperand (offset : Nat) (bs : List UInt8) : Except Error (String × Nat) :=
  match Name.terminated? bs with
  | some operand => .ok operand
  | none => .error (.malformed offset .unterminatedName)

/-- The operation of an opcode with its operands, read from the bytes after the opcode, which start
at `offset`; and the count of bytes that the operands take. -/
def decode (opcode : Opcode) (offset : Nat) (bs : List UInt8) : Except Error (Operation × Nat) :=
  match opcode with
  | .done => .ok (done, 0)
  | .setOrdinalImmediate => .ok (setOrdinalImmediate, 0)
  | .setOrdinalUnsigned => do
    let (ordinal, used) ← unsignedOperand offset bs
    return (setOrdinalUnsigned ordinal, used)
  | .setOrdinalSpecial => .ok (setOrdinalSpecial, 0)
  | .setSymbol => do
    let (name, used) ← nameOperand offset bs
    return (setSymbol name, used)
  | .setType => .ok (setType, 0)
  | .setAddend => do
    let (addend, used) ← signedOperand offset bs
    return (setAddend addend, used)
  | .setSegmentAndOffset => do
    let (segmentOffset, used) ← unsignedOperand offset bs
    return (setSegmentAndOffset segmentOffset, used)
  | .addAddress => do
    let (delta, used) ← unsignedOperand offset bs
    return (addAddress delta, used)
  | .bind => .ok (bind, 0)
  | .bindAddAddress => do
    let (delta, used) ← unsignedOperand offset bs
    return (bindAddAddress delta, used)
  | .bindAddScaled => .ok (bindAddScaled, 0)
  | .bindRepeated => do
    let (count, used) ← unsignedOperand offset bs
    let (skip, used') ← unsignedOperand (offset + used) (bs.drop used)
    return (bindRepeated count skip, used + used')

/-- The operands of an operation as bytes, each as short as it can be. -/
def encode : Operation → List UInt8
  | setOrdinalUnsigned ordinal => Leb128.encodeUnsigned ordinal
  | setSymbol name => name.toUTF8.data.toList ++ [0]
  | setAddend addend => Leb128.encodeSigned addend
  | setSegmentAndOffset offset => Leb128.encodeUnsigned offset
  | addAddress delta => Leb128.encodeUnsigned delta
  | bindAddAddress delta => Leb128.encodeUnsigned delta
  | bindRepeated count skip => Leb128.encodeUnsigned count ++ Leb128.encodeUnsigned skip
  | _ => []

end Operation

/-- The size of a pointer of a 32-bit image. -/
def pointerSize : UInt32 := 4

namespace Instruction

/-- An instruction as bytes. -/
def encode (i : Instruction) : List UInt8 :=
  (Coded.code i.operation.opcode ||| i.immediate) :: i.operation.encode

/-- The library ordinal that an instruction gives, if it gives one. -/
def ordinal? (i : Instruction) : Option Int :=
  match i.operation with
  | .setOrdinalImmediate => some i.immediate.toNat
  | .setOrdinalUnsigned ordinal => some ordinal.toNat
  | .setOrdinalSpecial => some (if i.immediate = 0 then 0 else (i.immediate.toNat : Int) - 16)
  | _ => none

/-- The reason to refuse a library ordinal. -/
def ordinalObjection (ordinal : Int) : Option Reason :=
  if Int64.maxValue.toInt < ordinal then some .ordinalTooLarge
  else
    match LibraryOrdinal.ofSigned? ordinal with
    | some _ => none
    | none => some (.unknownOrdinal ordinal)

/-- Whether a repeated bind covers more than the 32-bit address space.  The sum and the product are
taken in 64 bits: the sum stops at the greatest number and the product is too large if it does not
fit. -/
def repeatTooLong (count skip : UInt64) : Bool :=
  let step := min (skip.toNat + pointerSize.toNat) (UInt64.size - 1)
  let span := count.toNat * step
  UInt64.size ≤ span || UInt32.size < span

/-- The reason to refuse an instruction. -/
def objection (i : Instruction) : Option Reason :=
  match i.operation with
  | .bindRepeated count skip => if repeatTooLong count skip then some .repeatTooLong else none
  | _ => i.ordinal?.bind ordinalObjection

end Instruction

end MachImage.BindStream
