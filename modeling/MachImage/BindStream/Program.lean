import MachImage.BindStream.Instruction
import MachImage.Note

/-!
# Bind streams as programs

A bind stream is a sequence of instructions that runs to the end of its
bytes.  `Program.decodeFrom` reads the instructions up to the first fault.
It goes over the bytes one by one and keeps count of the operand bytes of the
last instruction that it still has to pass over.
-/

namespace MachImage.BindStream

/-- The first byte of an instruction. -/
structure Head where
  /-- Where the instruction starts. -/
  offset : Nat
  opcode : Opcode
  immediate : UInt8
  deriving DecidableEq, Repr

/-- What a stream of bytes says. -/
structure Program where
  /-- The first bytes of the instructions, that of a faulty instruction included if its opcode is
  known. -/
  heads : List Head
  /-- The instructions before the fault, or all of them. -/
  instructions : List Instruction
  /-- Why the stream cannot be read to its end. -/
  fault : Option Error
  deriving DecidableEq, Repr

namespace Program

/-- The program of no bytes. -/
def empty : Program := ⟨[], [], none⟩

/-- The program that starts with one more instruction. -/
def cons (head : Head) (i : Instruction) (p : Program) : Program :=
  ⟨head :: p.heads, i :: p.instructions, p.fault⟩

/-- The instruction whose first byte is `head`, read from the bytes after it, and the count of bytes
its operands take.  Operands are read before the instruction is judged. -/
def decodeInstruction (head : Head) (bs : List UInt8) : Except Error (Instruction × Nat) :=
  match Operation.decode head.opcode (head.offset + 1) bs with
  | .error e => .error e
  | .ok (operation, used) =>
    let i : Instruction := { operation, immediate := head.immediate }
    match i.objection with
    | some reason => .error (.malformed head.offset reason)
    | none => .ok (i, used)

/-- The program of the bytes that start at `offset`, after passing over `pending` of them. -/
def decodeFrom (pending offset : Nat) : List UInt8 → Program
  | [] => empty
  | b :: bs =>
    match pending with
    | pending + 1 => decodeFrom pending (offset + 1) bs
    | 0 =>
      match Opcode.ofByte? b with
      | none => ⟨[], [], some (.unknownBindOpcode (opcodeBits b) offset)⟩
      | some opcode =>
        let head : Head := { offset, opcode, immediate := immediateBits b }
        match decodeInstruction head bs with
        | .error e => ⟨[head], [], some e⟩
        | .ok (i, used) => cons head i (decodeFrom used (offset + 1) bs)

/-- The program of a whole stream. -/
def decode (bs : List UInt8) : Program := decodeFrom 0 0 bs

/-- A program as bytes. -/
def encode (is : List Instruction) : List UInt8 := is.flatMap Instruction.encode

/-- The notes made while a program is read. -/
def notes (p : Program) : List Note :=
  p.heads.map fun head => .instructionFound head.offset head.opcode head.immediate

end Program

end MachImage.BindStream
