import MachImage.Proofs.BindStream.Faults

/-!
# Bind streams one after another

A stream is read from its front, and how a part of it is read does not depend on
what follows: every instruction ends by itself, and none looks at the length of
the stream.  So the program of two streams one after another is the program of
the first, if it is accepted, and then that of the second, counted from where
the first ends (`Program.decode_append`).

`parse_append_of_accepted` says this of the bindings: the second stream goes on
from the state that the first leaves, its faults are those that it has alone,
that much further on, and a byte that stands for the end of an entry changes
nothing but where the later faults are.  `parse_eq_error_iff` says that a stream
is refused for what is wrong with the instruction behind an accepted beginning,
and for nothing else.
-/

namespace MachImage.BindStream

/-- The first byte of an instruction in a stream that starts later. -/
def Head.shift (base : Nat) (head : Head) : Head := { head with offset := base + head.offset }

namespace Program

/-- The program of a stream that starts later. -/
def shift (base : Nat) (p : Program) : Program :=
  ⟨p.heads.map (Head.shift base), p.instructions, p.fault.map (Error.shift base)⟩

/-- The program of a stream that is read to its end, and then that of another. -/
def append (p q : Program) : Program :=
  ⟨p.heads ++ q.heads, p.instructions ++ q.instructions, q.fault⟩

/-! ## One instruction -/

theorem decodeInstruction_shift (base : Nat) (head : Head) (bs : List UInt8) :
    decodeInstruction (head.shift base) bs
      = (decodeInstruction head bs).mapError (Error.shift base) := by
  have hoperation := Operation.decode_shift head.opcode base (head.offset + 1) bs
  rw [← Nat.add_assoc] at hoperation
  unfold decodeInstruction Head.shift
  simp only [hoperation]
  cases Operation.decode head.opcode (head.offset + 1) bs with
  | error e => rfl
  | ok operation =>
    simp only [Except.mapError]
    split <;> rfl

/-! ## Programs -/

/-- A stream that starts later says the same, that much further on. -/
theorem decodeFrom_shift (base pending offset : Nat) (bs : List UInt8) :
    decodeFrom pending (base + offset) bs = (decodeFrom pending offset bs).shift base := by
  induction bs generalizing pending offset with
  | nil => rfl
  | cons b bs ih =>
    cases pending with
    | succ pending =>
      rw [decodeFrom, decodeFrom, Nat.add_assoc, ih]
    | zero =>
      simp only [decodeFrom]
      cases Opcode.ofByte? b with
      | none => rfl
      | some opcode =>
        have hinstruction := decodeInstruction_shift base ⟨offset, opcode, immediateBits b⟩ bs
        rw [Head.shift] at hinstruction
        simp only [hinstruction]
        cases decodeInstruction ⟨offset, opcode, immediateBits b⟩ bs with
        | error e => rfl
        | ok i =>
          simp only [Except.mapError, Nat.add_assoc, ih]
          rfl

/-- **One stream after another.**  If the first stream has no fault and ends where its last
instruction does, what follows it is read as a stream of its own. -/
theorem decodeFrom_append_of_accepted {pending offset : Nat} {a : List UInt8}
    (hpending : pending ≤ a.length) (h : (decodeFrom pending offset a).fault = none)
    (b : List UInt8) :
    decodeFrom pending offset (a ++ b)
      = (decodeFrom pending offset a).append (decodeFrom 0 (offset + a.length) b) := by
  induction pending, offset, a using decodeFrom_induction with
  | nil pending offset =>
    obtain rfl : pending = 0 := Nat.le_zero.1 hpending
    rfl
  | pass pending offset x a ih =>
    rw [add_length_cons]
    exact ih (Nat.le_of_succ_le_succ hpending) h
  | fault offset x a e hfault =>
    rw [fault_of_instructionFault hfault] at h
    cases h
  | read offset x a opcode i used hopcode hread ih =>
    obtain ⟨hused, hmore⟩ := (selfContained_decodeInstruction _).selfDelimiting _ _ _ hread
    rw [decodeFrom_of_read hopcode hread] at h
    rw [add_length_cons, List.cons_append, decodeFrom_of_read hopcode (hmore b), ih hused h,
      decodeFrom_of_read hopcode hread]
    rfl

/-- The program of two streams, if the first is accepted. -/
theorem decode_append {a : List UInt8} (h : (decode a).fault = none) (b : List UInt8) :
    decode (a ++ b) = (decode a).append ((decode b).shift a.length) := by
  have happend := decodeFrom_append_of_accepted (Nat.zero_le _) h b
  rw [Nat.zero_add, ← Nat.add_zero a.length, decodeFrom_shift] at happend
  exact happend

/-- Instructions are run one after another. -/
theorem run_append (s : State) (is js : List Instruction) :
    run s (is ++ js) = run s is ++ run (finalState s is) js := by
  induction is generalizing s with
  | nil => rfl
  | cons i is ih =>
    rw [List.cons_append, run, run, ih, List.append_assoc, finalState, finalState, List.foldl_cons]

end Program

/-! ## Bindings -/

/-- The bindings of a stream that goes on from a state, or why there are none. -/
def parseFrom (s : State) (bs : List UInt8) : Except Error (List Binding) :=
  (Program.decode bs).result s

/-- The state that the instructions of a stream leave. -/
def stateAfter (bs : List UInt8) : State := Program.finalState {} (Program.decode bs).instructions

/-- The second stream goes on from the state that the first leaves. -/
theorem parse_append_eq {a : List UInt8} {ra : List Binding} (ha : parse a = .ok ra)
    (b : List UInt8) :
    parse (a ++ b) =
      match parseFrom (stateAfter a) b with
      | .ok rb => .ok (ra ++ rb)
      | .error e => .error (e.shift a.length) := by
  obtain ⟨hfault, hrun⟩ := parse_eq_ok_iff.1 ha
  rw [parse, Program.decode_append hfault, parseFrom, stateAfter, Program.result, Program.result,
    Program.append, Program.shift]
  cases (Program.decode b).fault with
  | some e => rfl
  | none => simp only [Option.map_none, Program.run_append, hrun]

/-- **The error of a stream** is what is wrong with the instruction behind an accepted beginning,
and whatever is wrong with such an instruction is the error of the stream. -/
theorem parse_eq_error_iff {bs : List UInt8} {e : Error} :
    parse bs = .error e ↔
      ∃ before b operands, bs = before ++ b :: operands ∧ (∃ r, parse before = .ok r) ∧
        InstructionFault before.length b operands e := by
  refine ⟨exists_instructionFault_of_parse, ?_⟩
  rintro ⟨before, b, operands, rfl, ⟨r, hr⟩, hfault⟩
  have haccepted : (Program.decode before).fault = none := (parse_eq_ok_iff.1 hr).1
  have happend := Program.decodeFrom_append_of_accepted (Nat.zero_le _) haccepted (b :: operands)
  rw [Nat.zero_add] at happend
  rw [parse_eq_error_iff_fault, Program.decode, happend]
  exact Program.fault_of_instructionFault hfault

/-- A stream that goes on from any state is at fault at one of its bytes or at its end. -/
theorem liesBetween_of_parseFrom {s : State} {bs : List UInt8} {e : Error}
    (h : parseFrom s bs = .error e) : e.LiesBetween 0 bs.length := by
  unfold parseFrom Program.result at h
  split at h
  next e' hfault =>
    cases h
    exact Nat.zero_add bs.length ▸ Program.liesBetween_fault hfault
  · cases h

/-- What stands for the end of an entry is a stream of one instruction, which does nothing. -/
theorem decode_done {c : UInt8} (hc : opcodeBits c = 0) :
    Program.decode [c] =
      Program.cons ⟨0, .done, immediateBits c⟩ ⟨.done, immediateBits c⟩ Program.empty := by
  have hopcode : Opcode.ofByte? c = some .done := by
    rw [Opcode.ofByte?, hc]
    rfl
  simp only [Program.decode, Program.decodeFrom, hopcode]
  rfl

/-- The end of an entry adds no bindings and leaves the state as it is. -/
theorem parse_append_done {a : List UInt8} {ra : List Binding} (ha : parse a = .ok ra) {c : UInt8}
    (hc : opcodeBits c = 0) :
    parse (a ++ [c]) = .ok ra ∧ stateAfter (a ++ [c]) = stateAfter a := by
  have hfault := (parse_eq_ok_iff.1 ha).1
  constructor
  · rw [parse_append_eq ha, parseFrom, decode_done hc]
    exact congrArg Except.ok (List.append_nil ra)
  · rw [stateAfter, Program.decode_append hfault, decode_done hc]
    exact List.foldl_append ..

/-- **Streams compose.**  What follows an accepted stream is read from the state that the stream
leaves: its bindings come after those of the stream, and its error is found as far on as the stream
is long.  A byte that stands for the end of an entry, put between the two, moves that error by one
and changes nothing else.  So the bindings of an accepted beginning are the first of the whole. -/
theorem parse_append_of_accepted {a : List UInt8} {ra : List Binding} (ha : parse a = .ok ra)
    (b : List UInt8) :
    (∀ rb, parseFrom (stateAfter a) b = .ok rb → parse (a ++ b) = .ok (ra ++ rb)) ∧
      (∀ e, parseFrom (stateAfter a) b = .error e →
        parse (a ++ b) = .error (e.shift a.length) ∧
          ∃ o ≤ b.length, e.position? = some o ∧
            (e.shift a.length).position? = some (a.length + o)) ∧
      (∀ c, opcodeBits c = 0 →
        (∀ r, parse (a ++ b) = .ok r → parse (a ++ [c] ++ b) = .ok r) ∧
          ∀ e, parse (a ++ b) = .error e → parse (a ++ [c] ++ b) = .error (e.shift 1) ∧
            ∃ o, e.position? = some o ∧ (e.shift 1).position? = some (1 + o)) ∧
      ∀ r, parse (a ++ b) = .ok r → ra <+: r := by
  have happend := parse_append_eq ha b
  refine ⟨fun rb hb => ?_, fun e hb => ⟨?_, ?_⟩, fun c hc => ?_, fun r hr => ?_⟩
  · rw [happend, hb]
  · rw [happend, hb]
  · obtain ⟨o, ho, -, hle⟩ := liesBetween_of_parseFrom hb
    exact ⟨o, by omega, ho, by rw [Error.position?_shift, ho]; rfl⟩
  · obtain ⟨hdone, hstate⟩ := parse_append_done ha hc
    have hbetween := parse_append_eq hdone b
    rw [hstate] at hbetween
    rw [happend, hbetween]
    cases hb : parseFrom (stateAfter a) b with
    | ok rb =>
      refine ⟨fun r hr => hr, ?_⟩
      intro e he
      cases he
    | error e =>
      obtain ⟨o, ho, -⟩ := liesBetween_of_parseFrom hb
      constructor
      · intro r hr
        cases hr
      · intro e' he
        cases he
        refine ⟨?_, a.length + o, ?_, ?_⟩
        · rw [Error.shift_shift, List.length_append, List.length_singleton, Nat.add_comm]
        · rw [Error.position?_shift, ho]
          rfl
        · rw [Error.position?_shift, Error.position?_shift, ho]
          rfl
  · rw [happend] at hr
    cases hb : parseFrom (stateAfter a) b with
    | ok rb =>
      rw [hb] at hr
      cases hr
      exact List.prefix_append ra rb
    | error e =>
      rw [hb] at hr
      cases hr

/-- A stream that binds once, at the start of the first segment. -/
def bindsOnce : List UInt8 := [0x71, 0x00, 0x90]

theorem parse_bindsOnce_append :
    parse bindsOnce = .ok [{ segment := 1 }] ∧
      parse (bindsOnce ++ [0x90]) = .ok [{ segment := 1 }, { segment := 1, offset := 4 }] ∧
      parse (bindsOnce ++ [0x90, 0xD0]) = .error (.unknownBindOpcode 0xD0 4) ∧
      parse (bindsOnce ++ [0x05] ++ [0x90, 0xD0]) = .error (.unknownBindOpcode 0xD0 5) := by
  have ha : parse bindsOnce = .ok [{ segment := 1 }] := rfl
  obtain ⟨haccepted, -, -, -⟩ := parse_append_of_accepted ha [0x90]
  obtain ⟨-, hrefused, hdone, -⟩ := parse_append_of_accepted ha [0x90, 0xD0]
  have herror : parse (bindsOnce ++ [0x90, 0xD0]) = .error (.unknownBindOpcode 0xD0 4) :=
    (hrefused (.unknownBindOpcode 0xD0 1) rfl).1
  exact ⟨ha, haccepted [{ segment := 1, offset := 4 }] rfl, herror,
    ((hdone 0x05 rfl).2 _ herror).1⟩

end MachImage.BindStream
