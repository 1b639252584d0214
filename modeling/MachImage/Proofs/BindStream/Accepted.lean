import MachImage.Proofs.BindStream.Composition

/-!
# What a bind stream holds

The instructions that are read from a stream, those before a fault included, are
instructions that a stream may hold (`isEncodable_of_mem`): the bytes of an
operand leave room for nothing else, and what they could say beyond it is refused
(`isEncodable_of_decode`).  There is at most one of them for each byte
(`length_instructions_le`).

So the stream of any bytes that are accepted makes the bindings of the stream that
says the same with operands as short as they can be, and these are the bindings
that its instructions make with an offset that never wraps
(`parse_encode_decode`).
-/

namespace MachImage.BindStream

/-! ## Instructions -/

theorem immediateBits_lt (b : UInt8) : immediateBits b < 16 := by
  rw [UInt8.lt_iff_toNat_lt, immediateBits, UInt8.toNat_and]
  exact Nat.lt_succ_of_le Nat.and_le_right

/-- A number that is not refused as an ordinal has a meaning. -/
theorem exists_ofSigned?_of_ordinalObjection {n : Int}
    (h : Instruction.ordinalObjection n = none) :
    ∃ ordinal, LibraryOrdinal.ofSigned? n = some ordinal := by
  unfold Instruction.ordinalObjection at h
  split_ifs at h
  cases hn : LibraryOrdinal.ofSigned? n with
  | some ordinal => exact ⟨ordinal, rfl⟩
  | none => simp [hn] at h

/-- The numbers that have a meaning as an ordinal. -/
theorem range_of_ofSigned? {n : Int} {ordinal : LibraryOrdinal}
    (h : LibraryOrdinal.ofSigned? n = some ordinal) : -3 ≤ n ∧ n < UInt32.size := by
  have hsize : (0 : Int) < UInt32.size := by decide
  unfold LibraryOrdinal.ofSigned? at h
  split_ifs at h <;> omega

/-- The immediates of special ordinals are zero and those that stand for a number from -3 on. -/
theorem mem_specialImmediates {imm : UInt8} (himm : imm < 16)
    (h : -3 ≤ if imm = 0 then 0 else (imm.toNat : Int) - 16) : imm ∈ specialImmediates := by
  revert h
  refine forall_immediate himm fun n => ?_
  revert n
  decide

namespace Operation

/-- An opcode is read as an operation of that opcode. -/
theorem opcode_of_decode {opcode : Opcode} {offset used : Nat} {bs : List UInt8}
    {operation : Operation} (h : decode opcode offset bs = .ok (operation, used)) :
    operation.opcode = opcode := by
  cases opcode with
  | setOrdinalUnsigned | setSegmentAndOffset | addAddress | bindAddAddress | setAddend
  | setSymbol =>
    obtain ⟨operand, -, hoperation⟩ := map_eq_ok_iff.1 h
    cases hoperation
    rfl
  | bindRepeated =>
    rw [decode] at h
    cases hcount : unsignedOperand offset bs with
    | error e =>
      rw [hcount] at h
      cases h
    | ok count =>
      rw [hcount] at h
      obtain ⟨skip, -, hoperation⟩ := map_eq_ok_iff.1 h
      cases hoperation
      rfl
  | _ =>
    cases h
    rfl

/-- The name of an operation that was read is the one in front of the bytes. -/
theorem terminated?_of_decode {opcode : Opcode} {offset used : Nat} {bs : List UInt8}
    {name : String} (h : decode opcode offset bs = .ok (.setSymbol name, used)) :
    Name.terminated? bs = some (name, used) := by
  obtain rfl : opcode = .setSymbol := (opcode_of_decode h).symm
  obtain ⟨operand, hoperand, hoperation⟩ := map_eq_ok_iff.1 h
  cases hoperation
  exact nameOperand_eq_ok_iff.1 hoperand

end Operation

namespace Program

/-- An instruction that is read and not refused is one that a stream may hold. -/
theorem isEncodable_of_decode {opcode : Opcode} {offset used : Nat} {bs : List UInt8}
    {operation : Operation} {imm : UInt8} (himm : imm < 16)
    (hoperation : Operation.decode opcode offset bs = .ok (operation, used))
    (hobjection : (Instruction.mk operation imm).objection = none) :
    (Instruction.mk operation imm).isEncodable = true := by
  have hordinal : ∀ n, (Instruction.mk operation imm).ordinal? = some n →
      (Instruction.mk operation imm).ordinal?.bind Instruction.ordinalObjection = none →
        -3 ≤ n ∧ n < UInt32.size := by
    intro n hn hnone
    rw [hn, Option.bind_some] at hnone
    obtain ⟨ordinal, hsome⟩ := exists_ofSigned?_of_ordinalObjection hnone
    exact range_of_ofSigned? hsome
  rw [Instruction.isEncodable, Bool.and_eq_true, decide_eq_true_eq, and_iff_right himm]
  cases operation with
  | setOrdinalUnsigned ordinal =>
    have hrange := (hordinal _ rfl hobjection).2
    exact decide_eq_true (by omega)
  | setOrdinalSpecial =>
    have hrange := (hordinal _ rfl hobjection).1
    exact decide_eq_true (mem_specialImmediates himm hrange)
  | setSymbol name =>
    have hname := Operation.terminated?_of_decode hoperation
    exact decide_eq_true (Name.zero_notMem_of_terminated? hname)
  | bindRepeated count skip =>
    have hnot : ¬ Instruction.repeatTooLong count skip = true := by
      intro hlong
      simp [Instruction.objection, hlong] at hobjection
    rw [Instruction.repeatTooLong_iff, Nat.not_lt] at hnot
    exact decide_eq_true hnot
  | _ => rfl

theorem isEncodable_of_decodeInstruction {k : Nat} {b : UInt8} {opcode : Opcode}
    {operands : List UInt8} {i : Instruction} {used : Nat}
    (h : decodeInstruction ⟨k, opcode, immediateBits b⟩ operands = .ok (i, used)) :
    i.isEncodable = true := by
  unfold decodeInstruction at h
  split at h
  · cases h
  next operation n hoperation =>
    simp only at h
    split at h
    · cases h
    next hobjection =>
      cases h
      exact isEncodable_of_decode (immediateBits_lt b) hoperation hobjection

/-- Every instruction of a stream is one that a stream may hold, also before a fault. -/
theorem isEncodable_of_mem {pending offset : Nat} {bs : List UInt8} {i : Instruction}
    (h : i ∈ (decodeFrom pending offset bs).instructions) : i.isEncodable = true := by
  induction pending, offset, bs using decodeFrom_induction with
  | nil => cases h
  | pass pending offset b bs ih => exact ih h
  | fault offset b bs e hfault =>
    rw [instructions_of_instructionFault hfault] at h
    cases h
  | read offset b bs opcode j used hopcode hread ih =>
    rw [decodeFrom_of_read hopcode hread] at h
    rcases List.mem_cons.1 h with rfl | hlater
    · exact isEncodable_of_decodeInstruction hread
    · exact ih hlater

/-- A stream has no more instructions than bytes. -/
theorem length_instructions_le (pending offset : Nat) (bs : List UInt8) :
    (decodeFrom pending offset bs).instructions.length ≤ bs.length := by
  induction pending, offset, bs using decodeFrom_induction with
  | nil => exact Nat.le_refl 0
  | pass pending offset b bs ih => exact Nat.le_succ_of_le ih
  | fault offset b bs e hfault =>
    rw [instructions_of_instructionFault hfault]
    exact Nat.zero_le _
  | read offset b bs opcode i used hopcode hread ih =>
    rw [decodeFrom_of_read hopcode hread]
    exact Nat.succ_le_succ ih

end Program

/-! ## Accepted streams -/

/-- **Shortest streams.**  An accepted stream makes the bindings of its instructions written anew,
each operand as short as it can be; they are those of a run whose offset never wraps. -/
theorem parse_encode_decode {bs : List UInt8} {r : List Binding} (h : parse bs = .ok r) :
    parse (Program.encode (Program.decode bs).instructions) = .ok r ∧
      Draft.run {} (Program.decode bs).instructions = r := by
  obtain ⟨-, hrun⟩ := parse_eq_ok_iff.1 h
  have hencodable : ∀ i ∈ (Program.decode bs).instructions, i.isEncodable = true :=
    fun i hi => Program.isEncodable_of_mem hi
  rw [parse_encode hencodable, hrun]
  exact ⟨rfl, (Draft.run_emit hencodable {}).symm.trans hrun⟩

end MachImage.BindStream
