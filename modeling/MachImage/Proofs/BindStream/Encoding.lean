import MachImage.Proofs.BindStream.Unbounded
import MachImage.Proofs.Leb128
import MachImage.Proofs.Utf8

/-!
# Bind streams read back

A program written as bytes is read as the same program: `decode_encode` reads
one operation with its operands, whatever follows, and `decodeFrom_encode` a
whole program by induction on its instructions.

The main result `parse_encode_eq_run` joins this with the run of drafts: the
bindings of an encoded program are those that its instructions make with an
offset that never wraps.
-/

namespace MachImage.BindStream

/-! ## First bytes -/

/-- The opcode and the immediate of a first byte do not disturb each other. -/
theorem headBits (op : Opcode) {imm : UInt8} (h : imm < 16) :
    opcodeBits (Coded.code op ||| imm) = Coded.code op ∧
      immediateBits (Coded.code op ||| imm) = imm := by
  refine forall_immediate h fun n => ?_
  revert n
  cases op <;> decide

theorem ofByte?_headByte (op : Opcode) {imm : UInt8} (h : imm < 16) :
    Opcode.ofByte? (Coded.code op ||| imm) = some op := by
  rw [Opcode.ofByte?, (headBits op h).1, Coded.ofCode?_eq_some_iff]

/-! ## Operands -/

theorem unsignedOperand_encode (v : UInt64) (offset : Nat) (rest : List UInt8) :
    Operation.unsignedOperand offset (Leb128.encodeUnsigned v ++ rest)
      = .ok (v, (Leb128.encodeUnsigned v).length) := by
  rw [Operation.unsignedOperand, Leb128.unsigned?_encodeUnsigned]

theorem signedOperand_encode (v : Int64) (offset : Nat) (rest : List UInt8) :
    Operation.signedOperand offset (Leb128.encodeSigned v ++ rest)
      = .ok (v, (Leb128.encodeSigned v).length) := by
  rw [Operation.signedOperand, Leb128.signed?_encodeSigned]

theorem nameOperand_encode {name : String} (h : '\x00' ∉ name.toList) (offset : Nat)
    (rest : List UInt8) :
    Operation.nameOperand offset (name.toUTF8.data.toList ++ [0] ++ rest)
      = .ok (name, name.toUTF8.data.toList.length + 1) := by
  rw [Operation.nameOperand, Name.terminated?_toUTF8 h]

/-- The name of an instruction that a stream may hold has no zero character. -/
theorem Instruction.zero_notMem_name {i : Instruction} (h : i.isEncodable = true) {name : String}
    (hname : i.operation = .setSymbol name) : '\x00' ∉ name.toList := by
  rw [isEncodable, Bool.and_eq_true, hname] at h
  exact of_decide_eq_true h.2

/-- An operation is read back from its operands, whatever follows them. -/
theorem Operation.decode_encode {op : Operation}
    (h : ∀ name, op = .setSymbol name → '\x00' ∉ name.toList) (offset : Nat) (rest : List UInt8) :
    decode op.opcode offset (op.encode ++ rest) = .ok (op, op.encode.length) := by
  cases op with
  | setOrdinalUnsigned ordinal => rw [encode, opcode, decode, unsignedOperand_encode]; rfl
  | setSymbol name =>
    rw [encode, opcode, decode, nameOperand_encode (h name rfl), List.length_append]
    rfl
  | setAddend addend => rw [encode, opcode, decode, signedOperand_encode]; rfl
  | setSegmentAndOffset offset => rw [encode, opcode, decode, unsignedOperand_encode]; rfl
  | addAddress delta => rw [encode, opcode, decode, unsignedOperand_encode]; rfl
  | bindAddAddress delta => rw [encode, opcode, decode, unsignedOperand_encode]; rfl
  | bindRepeated count skip =>
    have hcount := unsignedOperand_encode count offset (Leb128.encodeUnsigned skip ++ rest)
    have hskip := unsignedOperand_encode skip (offset + (Leb128.encodeUnsigned count).length) rest
    rw [encode, opcode, decode, List.append_assoc, hcount, List.length_append]
    simp only [Bind.bind, Except.bind, List.drop_left, hskip]
    rfl
  | _ => rfl

/-! ## Programs -/

namespace Program

/-- Passing over the operands leads to what follows them. -/
theorem decodeFrom_append (operands rest : List UInt8) (offset : Nat) :
    decodeFrom operands.length offset (operands ++ rest)
      = decodeFrom 0 (offset + operands.length) rest := by
  induction operands generalizing offset with
  | nil => rfl
  | cons b bs ih =>
    rw [List.length_cons, List.cons_append, decodeFrom, ih, Nat.add_assoc, Nat.add_comm 1]

/-- One instruction is read back, and reading goes on after it. -/
theorem decodeFrom_encode_append {i : Instruction} (h : i.isEncodable = true) (offset : Nat)
    (rest : List UInt8) :
    decodeFrom 0 offset (i.encode ++ rest)
      = cons ⟨offset, i.operation.opcode, i.immediate⟩ i
          (decodeFrom 0 (offset + i.encode.length) rest) := by
  have himm := Instruction.immediate_lt h
  have hoperation := Operation.decode_encode (fun _ => Instruction.zero_notMem_name h) (offset + 1)
    rest
  have hinstruction : decodeInstruction ⟨offset, i.operation.opcode, i.immediate⟩
      (i.operation.encode ++ rest) = .ok (i, i.operation.encode.length) := by
    simp only [decodeInstruction, hoperation, Instruction.objection_eq_none h]
  rw [Instruction.encode, List.cons_append, decodeFrom]
  simp only [ofByte?_headByte _ himm, (headBits _ himm).2, hinstruction]
  rw [decodeFrom_append, List.length_cons, Nat.add_assoc, Nat.add_comm 1]

/-- A program is read back from its bytes, without a fault. -/
theorem decodeFrom_encode {is : List Instruction} (h : ∀ i ∈ is, i.isEncodable = true)
    (offset : Nat) :
    (decodeFrom 0 offset (encode is)).instructions = is ∧
      (decodeFrom 0 offset (encode is)).fault = none := by
  induction is generalizing offset with
  | nil => exact ⟨rfl, rfl⟩
  | cons i is ih =>
    obtain ⟨hinstructions, hfault⟩ :=
      ih (fun j hj => h j (List.mem_cons_of_mem _ hj)) (offset + i.encode.length)
    have hi := decodeFrom_encode_append (h i (List.mem_cons_self ..)) offset (encode is)
    rw [encode, List.flatMap_cons, ← encode, hi]
    exact ⟨congrArg (i :: ·) hinstructions, hfault⟩

end Program

/-! ## The bindings of an encoded program -/

/-- The bytes of a program make the bindings of its instructions. -/
theorem parse_encode {is : List Instruction} (h : ∀ i ∈ is, i.isEncodable = true) :
    parse (Program.encode is) = .ok (Program.run {} is) := by
  obtain ⟨hinstructions, hfault⟩ := Program.decodeFrom_encode h 0
  rw [parse, Program.decode, Program.result, hfault, hinstructions]

/-- **Encoding, then running.**  The bytes of a program make exactly the bindings that its
instructions make with an offset that never wraps and is reduced only when a binding is made. -/
theorem parse_encode_eq_run {is : List Instruction} (h : ∀ i ∈ is, i.isEncodable = true) :
    parse (Program.encode is) = .ok (Draft.run {} is) := by
  rw [parse_encode h]
  exact congrArg Except.ok (Draft.run_emit h {})

/-- A program with every operation, whose offset passes the end of the address space twice. -/
def everyOperation : List Instruction :=
  [⟨.setOrdinalUnsigned 300, 7⟩, ⟨.setSymbol "_é", 15⟩, ⟨.setType, 2⟩, ⟨.setAddend (-5), 0⟩,
    ⟨.setSegmentAndOffset 0x1FFFFFFFC, 2⟩, ⟨.bind, 3⟩, ⟨.bindRepeated 2 8, 0⟩,
    ⟨.setOrdinalSpecial, 14⟩, ⟨.setType, 7⟩, ⟨.addAddress 0xFFFFFFFFFFFFFFFF, 0⟩,
    ⟨.bindAddAddress 5, 0⟩, ⟨.setSymbol "", 6⟩, ⟨.bindAddScaled, 15⟩, ⟨.done, 9⟩,
    ⟨.setOrdinalImmediate, 0⟩, ⟨.bind, 0⟩]

/-- The bytes of that program, and its bindings with all they say. -/
theorem parse_everyOperation :
    (∀ i ∈ everyOperation, i.isEncodable = true) ∧
      Program.encode everyOperation =
        [0x27, 0xAC, 0x02, 0x4F, 0x5F, 0xC3, 0xA9, 0x00, 0x52, 0x60, 0x7B,
          0x72, 0xFC, 0xFF, 0xFF, 0xFF, 0x1F, 0x93, 0xC0, 0x02, 0x08, 0x3E, 0x57,
          0x80, 0xFF, 0xFF, 0xFF, 0xFF, 0xFF, 0xFF, 0xFF, 0xFF, 0xFF, 0x01,
          0xA0, 0x05, 0x46, 0x00, 0xBF, 0x09, 0x10, 0x90] ∧
      parse (Program.encode everyOperation) = .ok
        [⟨some (.index 300), "_é", ⟨9⟩, some .textAbsolute32, 2, 0xFFFFFFFC, -5⟩,
          ⟨some (.index 300), "_é", ⟨9⟩, some .textAbsolute32, 2, 0, -5⟩,
          ⟨some (.index 300), "_é", ⟨9⟩, some .textAbsolute32, 2, 12, -5⟩,
          ⟨some .dynamicLookup, "_é", ⟨9⟩, some (.other 7), 2, 23, -5⟩,
          ⟨some .dynamicLookup, "", ⟨0⟩, some (.other 7), 2, 32, -5⟩,
          ⟨some .selfImage, "", ⟨0⟩, some (.other 7), 2, 96, -5⟩] := by
  have hencodable : ∀ i ∈ everyOperation, i.isEncodable = true := by decide
  refine ⟨hencodable, by decide +kernel, ?_⟩
  rw [parse_encode_eq_run hencodable]
  rfl

end MachImage.BindStream
