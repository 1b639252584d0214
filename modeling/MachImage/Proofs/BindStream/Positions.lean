import MachImage.Proofs.BindStream.Composition

/-!
# Where a bind stream is wrong

The error of a stream carries an offset.  `PointsAt` says, for each kind of error,
what lies there and how far it is from the start of the instruction at fault: an
unknown opcode and an objection are reported where the instruction starts, an
operand where the operand does.

`pointsAt_of_parse` finds that start in the bytes of the stream: it is the end of
an accepted beginning, which holds all the instructions that can be read.
-/

namespace MachImage.BindStream

/-- What an error says of the bytes of a stream: the instruction at fault starts at `k`, and the
error is reported at `o`. -/
inductive PointsAt (bs : List UInt8) (k : Nat) : (o : Nat) → Error → Prop where
  /-- There is no instruction with the opcode of the byte. -/
  | opcode {b : UInt8} (hbyte : bs[k]? = some b) (hopcode : opcodeBits b ∈ [0xD0, 0xE0, 0xF0]) :
      PointsAt bs k k (.unknownBindOpcode (opcodeBits b) k)
  | ordinal {reason : Reason}
      (hreason : reason = .ordinalTooLarge ∨ ∃ n, reason = .unknownOrdinal n) :
      PointsAt bs k k (.malformed k reason)
  | repetition : PointsAt bs k k (.malformed k .repeatTooLong)
  /-- No zero byte ends the name behind the first byte. -/
  | name (hends : 0 ∉ bs.drop (k + 1)) :
      PointsAt bs k (k + 1) (.malformed (k + 1) .unterminatedName)
  | unsigned {o : Nat} (hlt : k < o) (hbad : Leb128.unsigned? (bs.drop o) = none) :
      PointsAt bs k o (.invalidUnsignedLeb o)
  | signed {o : Nat} (hlt : k < o) (hbad : Leb128.signed? (bs.drop o) = none) :
      PointsAt bs k o (.invalidSignedLeb o)

/-! ## Causes -/

/-- The opcodes that are not known. -/
theorem opcodeBits_of_unknown {b : UInt8} (h : Opcode.ofByte? b = none) :
    opcodeBits b ∈ [0xD0, 0xE0, 0xF0] := by
  have hall : ∀ n : Fin 256, Opcode.ofByte? (UInt8.ofNat n) = none →
      opcodeBits (UInt8.ofNat n) ∈ [0xD0, 0xE0, 0xF0] := by
    decide +kernel
  have hb := hall ⟨b.toNat, b.toNat_lt⟩
  rw [UInt8.ofNat_toNat] at hb
  exact hb h

/-- The reasons to refuse an instruction. -/
theorem Instruction.reason_of_objection {i : Instruction} {reason : Reason}
    (h : i.objection = some reason) :
    (reason = .ordinalTooLarge ∨ ∃ n, reason = .unknownOrdinal n) ∨ reason = .repeatTooLong := by
  have hordinal : ∀ n, ordinalObjection n = some reason →
      reason = .ordinalTooLarge ∨ ∃ n, reason = .unknownOrdinal n := by
    intro n hn
    unfold ordinalObjection at hn
    split_ifs at hn
    · exact Or.inl (Option.some.inj hn).symm
    · split at hn
      · cases hn
      · exact Or.inr ⟨n, (Option.some.inj hn).symm⟩
  obtain ⟨op, imm⟩ := i
  cases op with
  | setOrdinalImmediate | setOrdinalUnsigned | setOrdinalSpecial => exact Or.inl (hordinal _ h)
  | bindRepeated count skip =>
    obtain ⟨-, hreason⟩ := Option.ite_none_right_eq_some.1 h
    exact Or.inr (Option.some.inj hreason).symm
  | _ => cases h

/-- Behind the bytes before it and its first byte come the operands of an instruction. -/
theorem drop_operands (before : List UInt8) (b : UInt8) (operands : List UInt8) (n : Nat) :
    (before ++ b :: operands).drop (before.length + 1 + n) = operands.drop n := by
  rw [Nat.add_assoc, ← List.drop_drop, List.drop_left, Nat.add_comm, List.drop_succ_cons]

/-- **One instruction.**  What is wrong with an instruction is found where its error points. -/
theorem InstructionFault.pointsAt {before : List UInt8} {b : UInt8} {operands : List UInt8}
    {e : Error} (h : InstructionFault before.length b operands e) :
    ∃ o, e.position? = some o ∧ PointsAt (before ++ b :: operands) before.length o e := by
  have hbyte : (before ++ b :: operands)[before.length]? = some b := by
    rw [List.getElem?_append_right (Nat.le_refl _), Nat.sub_self, List.getElem?_cons_zero]
  have hoperands : (before ++ b :: operands).drop (before.length + 1) = operands :=
    drop_operands before b operands 0
  cases h with
  | opcode hopcode => exact ⟨_, rfl, .opcode hbyte (opcodeBits_of_unknown hopcode)⟩
  | objection hopcode hoperation hobjection =>
    rcases Instruction.reason_of_objection hobjection with hreason | rfl
    · exact ⟨_, rfl, .ordinal hreason⟩
    · exact ⟨_, rfl, .repetition⟩
  | operands hopcode hfault =>
    cases hfault with
    | unsigned htakes hbad =>
      exact ⟨_, rfl, .unsigned (Nat.lt_succ_self _) (by rw [hoperands]; exact hbad)⟩
    | skip hcount hbad =>
      exact ⟨_, rfl, .unsigned (by omega) (by rw [drop_operands]; exact hbad)⟩
    | addend hbad =>
      exact ⟨_, rfl, .signed (Nat.lt_succ_self _) (by rw [hoperands]; exact hbad)⟩
    | name hends => exact ⟨_, rfl, .name (by rw [hoperands]; exact hends)⟩

/-! ## Streams -/

/-- An error is not reported before the start of the instruction at fault. -/
theorem PointsAt.le {bs : List UInt8} {k o : Nat} {e : Error} (h : PointsAt bs k o e) : k ≤ o := by
  cases h with
  | opcode | ordinal | repetition => exact Nat.le_refl k
  | name => exact Nat.le_succ k
  | unsigned hlt | signed hlt => exact Nat.le_of_lt hlt

/-- **The error of a stream points at its fault.**  The instruction at fault starts where an
accepted beginning ends that holds all instructions which can be read, and the error is reported
there or at the operand that cannot be read. -/
theorem pointsAt_of_parse {bs : List UInt8} {e : Error} (h : parse bs = .error e) :
    ∃ k o, e.position? = some o ∧ k ≤ o ∧ o ≤ bs.length ∧ (∃ r, parse (bs.take k) = .ok r) ∧
      (Program.decode bs).instructions = (Program.decode (bs.take k)).instructions ∧
      PointsAt bs k o e := by
  obtain ⟨before, b, operands, rfl, ⟨r, hr⟩, hfault⟩ := exists_instructionFault_of_parse h
  obtain ⟨o, ho, hpoints⟩ := hfault.pointsAt
  obtain ⟨o', ho', -, hle⟩ := hfault.liesBetween
  obtain rfl : o = o' := Option.some.inj (ho.symm.trans ho')
  have hinstructions : (Program.decode (before ++ b :: operands)).instructions =
      (Program.decode before).instructions := by
    have happend := Program.decodeFrom_append_of_accepted (Nat.zero_le _) (parse_eq_ok_iff.1 hr).1
      (b :: operands)
    rw [Nat.zero_add] at happend
    rw [Program.decode, happend, Program.append, Program.instructions_of_instructionFault hfault,
      List.append_nil]
    rfl
  refine ⟨before.length, o, ho, hpoints.le, ?_, ?_, ?_, hpoints⟩
  · rw [List.length_append, List.length_cons]
    omega
  · exact ⟨r, by rw [List.take_left]; exact hr⟩
  · rw [List.take_left]
    exact hinstructions

end MachImage.BindStream
