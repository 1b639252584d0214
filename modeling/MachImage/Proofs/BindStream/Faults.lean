import MachImage.Proofs.BindStream.Operand

/-!
# What is wrong with a bind stream

A stream that is refused is at fault in one instruction, and what comes before
that instruction is a stream that is accepted.

* `InstructionFault` — what can be wrong with one instruction: its opcode is
  unknown, one of its operands cannot be read, or there is an objection to it.
* `Program.decodeFrom_induction` — a stream is read byte by byte: one is passed over,
  or starts an instruction at fault, or one that is read.
* `exists_instructionFault_of_parse` — the error of a stream is what is wrong
  with the instruction behind an accepted beginning.
* `legible` — whether an instruction can be told from its bytes: its opcode is
  known and the numbers among its operands can be read.
* `isBindStreamError_iff_of_parse` — a refused stream is blamed as such exactly
  if the instruction at fault is not legible.  A name without an end and an
  objection to what the instruction says are causes that other parts of an image
  can have as well, and are not told from these.
-/

namespace MachImage.BindStream

/-! ## One instruction -/

/-- What can be wrong with the instruction that starts at `k` with the byte `b`, which comes before
the bytes `operands`. -/
inductive InstructionFault (k : Nat) (b : UInt8) (operands : List UInt8) : Error → Prop where
  | opcode (hopcode : Opcode.ofByte? b = none) :
      InstructionFault k b operands (.unknownBindOpcode (opcodeBits b) k)
  /-- The operands behind the first byte cannot be read. -/
  | operands {opcode : Opcode} {e : Error} (hopcode : Opcode.ofByte? b = some opcode)
      (hoperands : OperandFault (k + 1) operands opcode e) :
      InstructionFault k b operands e
  /-- They can be read, and the instruction is refused for what they say. -/
  | objection {opcode : Opcode} {operation : Operation} {used : Nat} {reason : Reason}
      (hopcode : Opcode.ofByte? b = some opcode)
      (hoperation : Operation.decode opcode (k + 1) operands = .ok (operation, used))
      (hobjection : (Instruction.mk operation (immediateBits b)).objection = some reason) :
      InstructionFault k b operands (.malformed k reason)

/-- An instruction is at fault where it starts or within its operands. -/
theorem InstructionFault.liesBetween {k : Nat} {b : UInt8} {operands : List UInt8} {e : Error}
    (h : InstructionFault k b operands e) : e.LiesBetween k (k + 1 + operands.length) := by
  cases h with
  | opcode | objection => exact ⟨k, rfl, Nat.le_refl _, by omega⟩
  | operands hopcode hoperands => exact hoperands.liesBetween.mono (Nat.le_succ _) (Nat.le_refl _)

namespace Program

/-- An instruction ends by itself: it is judged by its operands alone. -/
theorem selfContained_decodeInstruction (head : Head) :
    SelfContained (decodeInstruction head) := by
  intro bs i used h
  unfold decodeInstruction at h
  split at h
  · cases h
  next operation n hoperation =>
    obtain ⟨hle, hrest⟩ := Operation.selfContained_decode _ _ _ _ _ hoperation
    simp only at h
    split at h
    · cases h
    next hobjection =>
      cases h
      refine ⟨hle, fun rest => ?_⟩
      rw [decodeInstruction, hrest]
      simp only [hobjection]

/-- An instruction with a known opcode is at fault in its operands or in what they say. -/
theorem instructionFault_of_decodeInstruction {k : Nat} {b : UInt8} {operands : List UInt8}
    {opcode : Opcode} {e : Error} (hopcode : Opcode.ofByte? b = some opcode)
    (h : decodeInstruction ⟨k, opcode, immediateBits b⟩ operands = .error e) :
    InstructionFault k b operands e := by
  unfold decodeInstruction at h
  split at h
  next e' hoperation =>
    cases h
    exact .operands hopcode (Operation.decode_eq_error_iff.1 hoperation)
  next operation used hoperation =>
    simp only at h
    split at h
    next reason hobjection =>
      cases h
      exact .objection hopcode hoperation hobjection
    next => cases h

/-- A stream that starts with an instruction at fault has that fault. -/
theorem fault_of_instructionFault {k : Nat} {b : UInt8} {operands : List UInt8} {e : Error}
    (h : InstructionFault k b operands e) : (decodeFrom 0 k (b :: operands)).fault = some e := by
  cases h with
  | opcode hopcode => simp only [decodeFrom, hopcode]
  | operands hopcode hoperands =>
    have hoperation := Operation.decode_eq_error_iff.2 hoperands
    simp only [decodeFrom, hopcode, decodeInstruction, hoperation]
  | objection hopcode hoperation hobjection =>
    simp only [decodeFrom, hopcode, decodeInstruction, hoperation, hobjection]

/-- At a byte there is an instruction at fault, or one that is read. -/
theorem fault_or_read (k : Nat) (b : UInt8) (operands : List UInt8) :
    (∃ e, InstructionFault k b operands e) ∨
      ∃ opcode i used, Opcode.ofByte? b = some opcode ∧
        decodeInstruction ⟨k, opcode, immediateBits b⟩ operands = .ok (i, used) := by
  cases hopcode : Opcode.ofByte? b with
  | none => exact Or.inl ⟨_, .opcode hopcode⟩
  | some opcode =>
    cases hread : decodeInstruction ⟨k, opcode, immediateBits b⟩ operands with
    | error e => exact Or.inl ⟨e, instructionFault_of_decodeInstruction hopcode hread⟩
    | ok decoded => exact Or.inr ⟨opcode, decoded.1, decoded.2, rfl, hread⟩

/-- A stream that starts with an instruction at fault holds no instructions. -/
theorem instructions_of_instructionFault {k : Nat} {b : UInt8} {operands : List UInt8} {e : Error}
    (h : InstructionFault k b operands e) : (decodeFrom 0 k (b :: operands)).instructions = [] := by
  cases h with
  | opcode hopcode => simp only [decodeFrom, hopcode]
  | operands hopcode hoperands =>
    have hoperation := Operation.decode_eq_error_iff.2 hoperands
    simp only [decodeFrom, hopcode, decodeInstruction, hoperation]
  | objection hopcode hoperation hobjection =>
    simp only [decodeFrom, hopcode, decodeInstruction, hoperation, hobjection]

/-- Behind an instruction that is read the stream goes on after its operands. -/
theorem decodeFrom_of_read {k : Nat} {b : UInt8} {operands : List UInt8} {opcode : Opcode}
    {i : Instruction} {used : Nat} (hopcode : Opcode.ofByte? b = some opcode)
    (hread : decodeInstruction ⟨k, opcode, immediateBits b⟩ operands = .ok (i, used)) :
    decodeFrom 0 k (b :: operands) =
      cons ⟨k, opcode, immediateBits b⟩ i (decodeFrom used (k + 1) operands) := by
  simp only [decodeFrom, hopcode, hread]

/-- **Induction along a stream**: a byte is passed over, or an instruction at fault starts there, or
one that is read. -/
@[elab_as_elim]
theorem decodeFrom_induction {motive : Nat → Nat → List UInt8 → Prop}
    (nil : ∀ pending offset, motive pending offset [])
    (pass : ∀ pending offset b bs, motive pending (offset + 1) bs →
      motive (pending + 1) offset (b :: bs))
    (fault : ∀ offset b bs e, InstructionFault offset b bs e → motive 0 offset (b :: bs))
    (read : ∀ offset b bs opcode i used, Opcode.ofByte? b = some opcode →
      decodeInstruction ⟨offset, opcode, immediateBits b⟩ bs = .ok (i, used) →
        motive used (offset + 1) bs → motive 0 offset (b :: bs))
    (pending offset : Nat) (bs : List UInt8) : motive pending offset bs := by
  induction bs generalizing pending offset with
  | nil => exact nil pending offset
  | cons b bs ih =>
    cases pending with
    | succ pending => exact pass pending offset b bs (ih pending (offset + 1))
    | zero =>
      rcases fault_or_read offset b bs with ⟨e, hfault⟩ | ⟨opcode, i, used, hopcode, hread⟩
      · exact fault offset b bs e hfault
      · exact read offset b bs opcode i used hopcode hread (ih used (offset + 1))

/-! ## The instruction at fault -/

theorem add_length_cons (offset : Nat) (b : UInt8) (bs : List UInt8) :
    offset + (b :: bs).length = offset + 1 + bs.length := by
  rw [List.length_cons, Nat.add_assoc, Nat.add_comm 1]

/-- Up to the instruction at fault a stream is accepted on its own. -/
theorem exists_instructionFault {pending offset : Nat} {bs : List UInt8} {e : Error}
    (h : (decodeFrom pending offset bs).fault = some e) :
    ∃ before b operands, bs = before ++ b :: operands ∧ pending ≤ before.length ∧
      (decodeFrom pending offset before).fault = none ∧
      InstructionFault (offset + before.length) b operands e := by
  induction pending, offset, bs using decodeFrom_induction with
  | nil => cases h
  | pass pending offset x bs ih =>
    obtain ⟨before, b, operands, rfl, hpending, haccepted, hfault⟩ := ih h
    rw [← add_length_cons offset x] at hfault
    exact ⟨x :: before, b, operands, rfl, Nat.succ_le_succ hpending, haccepted, hfault⟩
  | fault offset x bs e' hfault =>
    rw [fault_of_instructionFault hfault] at h
    cases h
    exact ⟨[], x, bs, rfl, Nat.zero_le _, rfl, hfault⟩
  | read offset x bs opcode i used hopcode hread ih =>
    rw [decodeFrom_of_read hopcode hread] at h
    obtain ⟨before, b, operands, rfl, hused, haccepted, hfault⟩ := ih h
    rw [← add_length_cons offset x] at hfault
    -- the instruction does not need the bytes behind the accepted beginning
    have hsame : decodeInstruction ⟨offset, opcode, immediateBits x⟩ before = .ok (i, used) :=
      (selfContained_decodeInstruction _).of_append hread hused
    refine ⟨x :: before, b, operands, rfl, Nat.zero_le _, ?_, hfault⟩
    rw [decodeFrom_of_read hopcode hsame]
    exact haccepted

/-- A stream is at fault at one of its bytes or at its end. -/
theorem liesBetween_fault {pending offset : Nat} {bs : List UInt8} {e : Error}
    (h : (decodeFrom pending offset bs).fault = some e) :
    e.LiesBetween offset (offset + bs.length) := by
  obtain ⟨before, b, operands, rfl, -, -, hfault⟩ := exists_instructionFault h
  refine hfault.liesBetween.mono (Nat.le_add_right ..) ?_
  rw [List.length_append, List.length_cons]
  omega

end Program

theorem parse_eq_ok_iff {bs : List UInt8} {r : List Binding} :
    parse bs = .ok r ↔
      (Program.decode bs).fault = none ∧ Program.run {} (Program.decode bs).instructions = r := by
  unfold parse Program.result
  cases (Program.decode bs).fault <;> simp

theorem parse_eq_error_iff_fault {bs : List UInt8} {e : Error} :
    parse bs = .error e ↔ (Program.decode bs).fault = some e := by
  unfold parse Program.result
  cases (Program.decode bs).fault <;> simp

/-- **A refused stream** has an accepted beginning and behind it an instruction at fault. -/
theorem exists_instructionFault_of_parse {bs : List UInt8} {e : Error} (h : parse bs = .error e) :
    ∃ before b operands, bs = before ++ b :: operands ∧ (∃ r, parse before = .ok r) ∧
      InstructionFault before.length b operands e := by
  obtain ⟨before, b, operands, hbs, -, haccepted, hfault⟩ :=
    Program.exists_instructionFault (parse_eq_error_iff_fault.1 h)
  rw [Nat.zero_add] at hfault
  exact ⟨before, b, operands, hbs, ⟨_, parse_eq_ok_iff.2 ⟨haccepted, rfl⟩⟩, hfault⟩

/-! ## Which streams are blamed -/

/-- Whether the numbers among the operands of an opcode can be read. -/
def Opcode.numbersLegible (opcode : Opcode) (bs : List UInt8) : Bool :=
  match opcode with
  | .setOrdinalUnsigned | .setSegmentAndOffset | .addAddress | .bindAddAddress =>
    (Leb128.unsigned? bs).isSome
  | .bindRepeated =>
    match Leb128.unsigned? bs with
    | some (_, used) => (Leb128.unsigned? (bs.drop used)).isSome
    | none => false
  | .setAddend => (Leb128.signed? bs).isSome
  | .done | .setOrdinalImmediate | .setOrdinalSpecial | .setSymbol | .setType | .bind
  | .bindAddScaled => true

/-- Whether an instruction can be told from its bytes: its opcode is known and the numbers among its
operands can be read. -/
def legible (b : UInt8) (operands : List UInt8) : Bool :=
  match Opcode.ofByte? b with
  | some opcode => opcode.numbersLegible operands
  | none => false

/-- Operands are blamed on the stream exactly if one of their numbers cannot be read. -/
theorem OperandFault.isBindStreamError_iff {offset : Nat} {bs : List UInt8} {opcode : Opcode}
    {e : Error} (h : OperandFault offset bs opcode e) :
    e.isBindStreamError = true ↔ opcode.numbersLegible bs = false := by
  cases h with
  | unsigned htakes hbad =>
    have hlegible : opcode.numbersLegible bs = false := by
      cases opcode with
      | setOrdinalUnsigned | setSegmentAndOffset | addAddress | bindAddAddress | bindRepeated =>
        simp [Opcode.numbersLegible, hbad]
      | _ => cases htakes
    exact iff_of_true rfl hlegible
  | skip hcount hbad => exact iff_of_true rfl (by simp [Opcode.numbersLegible, hcount, hbad])
  | addend hbad => exact iff_of_true rfl (by simp [Opcode.numbersLegible, hbad])
  | name hends => exact iff_of_false Bool.false_ne_true (by simp [Opcode.numbersLegible])

/-- Operands that can be read have numbers that can be read. -/
theorem Operation.numbersLegible_of_decode {opcode : Opcode} {offset used : Nat} {bs : List UInt8}
    {operation : Operation} (h : decode opcode offset bs = .ok (operation, used)) :
    opcode.numbersLegible bs = true := by
  by_contra hillegible
  have hfault : ∃ e, OperandFault offset bs opcode e := by
    cases opcode with
    | setOrdinalUnsigned | setSegmentAndOffset | addAddress | bindAddAddress =>
      exact ⟨_, .unsigned rfl (by simpa [Opcode.numbersLegible] using hillegible)⟩
    | setAddend => exact ⟨_, .addend (by simpa [Opcode.numbersLegible] using hillegible)⟩
    | bindRepeated =>
      cases hcount : Leb128.unsigned? bs with
      | none => exact ⟨_, .unsigned rfl hcount⟩
      | some count =>
        exact ⟨_, .skip hcount (by simpa [Opcode.numbersLegible, hcount] using hillegible)⟩
    | done | setOrdinalImmediate | setOrdinalSpecial | setSymbol | setType | bind
    | bindAddScaled => exact absurd rfl hillegible
  obtain ⟨e, he⟩ := hfault
  rw [decode_eq_error_iff.2 he] at h
  cases h

/-- An instruction is blamed on the stream exactly if it is not legible. -/
theorem InstructionFault.isBindStreamError_iff {k : Nat} {b : UInt8} {operands : List UInt8}
    {e : Error} (h : InstructionFault k b operands e) :
    e.isBindStreamError = true ↔ legible b operands = false := by
  unfold legible
  cases h with
  | opcode hopcode => simp only [hopcode, Error.isBindStreamError]
  | operands hopcode hoperands =>
    simp only [hopcode]
    exact hoperands.isBindStreamError_iff
  | objection hopcode hoperation hobjection =>
    simp only [hopcode, Operation.numbersLegible_of_decode hoperation, Error.isBindStreamError,
      Bool.false_eq_true, Bool.true_eq_false]

/-- **Which refused streams are blamed.**  A stream that is refused has an accepted beginning and
then an instruction at fault, whose fault is the error.  The error is said to be that of a bind
stream exactly if that instruction has an unknown opcode or a number that cannot be read; a name
without an end, an ordinal without a meaning and a bind repeated beyond the address space are not
blamed. -/
theorem isBindStreamError_iff_of_parse {bs : List UInt8} {e : Error} (h : parse bs = .error e) :
    ∃ before b operands, bs = before ++ b :: operands ∧ (∃ r, parse before = .ok r) ∧
      InstructionFault before.length b operands e ∧
      (e.isBindStreamError = true ↔ legible b operands = false) := by
  obtain ⟨before, b, operands, hbs, haccepted, hfault⟩ := exists_instructionFault_of_parse h
  exact ⟨before, b, operands, hbs, haccepted, hfault, hfault.isBindStreamError_iff⟩

/-- Behind a bind, an ordinal without a meaning can be told from its bytes, and a number that does
not end cannot. -/
theorem isBindStreamError_behind_bind :
    (parse [0x90, 0x31] = .error (.malformed 1 (.unknownOrdinal (-15))) ∧
      ∃ before b operands, [0x90, 0x31] = before ++ b :: operands ∧ (∃ r, parse before = .ok r) ∧
        InstructionFault before.length b operands (.malformed 1 (.unknownOrdinal (-15))) ∧
        legible b operands = true) ∧
    parse [0x90, 0x20, 0x80] = .error (.invalidUnsignedLeb 2) ∧
      ∃ before b operands, [0x90, 0x20, 0x80] = before ++ b :: operands ∧
        (∃ r, parse before = .ok r) ∧
        InstructionFault before.length b operands (.invalidUnsignedLeb 2) ∧
        legible b operands = false := by
  have hordinal : parse [0x90, 0x31] = .error (.malformed 1 (.unknownOrdinal (-15))) := rfl
  have hnumber : parse [0x90, 0x20, 0x80] = .error (.invalidUnsignedLeb 2) := rfl
  obtain ⟨before, b, operands, hbs, haccepted, hfault, hiff⟩ :=
    isBindStreamError_iff_of_parse hordinal
  obtain ⟨before', b', operands', hbs', haccepted', hfault', hiff'⟩ :=
    isBindStreamError_iff_of_parse hnumber
  have hlegible : legible b operands = true := Bool.eq_true_of_not_eq_false (mt hiff.2 nofun)
  exact ⟨⟨hordinal, before, b, operands, hbs, haccepted, hfault, hlegible⟩, hnumber, before', b',
    operands', hbs', haccepted', hfault', hiff'.1 rfl⟩

/-- Streams that are refused and not blamed: an ordinal without a meaning, a name without an end,
and a bind repeated too often. -/
theorem refused_without_blame :
    parse [0x31] = .error (.malformed 0 (.unknownOrdinal (-15))) ∧
      parse [0x40, 0x5F] = .error (.malformed 1 .unterminatedName) ∧
      parse [0xC0, 0x81, 0x80, 0x80, 0x80, 0x04, 0x00] = .error (.malformed 0 .repeatTooLong) ∧
      ¬ ∀ bs e, parse bs = .error e → e.isBindStreamError = true := by
  have hordinal : parse [0x31] = .error (.malformed 0 (.unknownOrdinal (-15))) := rfl
  refine ⟨hordinal, rfl, rfl, fun h => ?_⟩
  have hblamed := h _ _ hordinal
  cases hblamed

end MachImage.BindStream
