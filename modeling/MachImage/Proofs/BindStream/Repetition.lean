import MachImage.Proofs.BindStream.Accepted
import Mathlib.Data.List.Nodup

/-!
# Repeated binds

A repeated bind says how often it binds and how many bytes it passes over after
each pointer, in two numbers of 64 bits.  Offsets have 32 bits.

* `Repeats` — what a repetition makes of a state: so many bindings, which differ in
  their offsets only, each a pointer and the bytes passed over behind the one
  before it, modulo the size of the address space.
* `repeats` — a repetition that covers at most the address space makes exactly
  this, so that no place is bound twice (`Repeats.distinct`) and there are at most
  as many bindings as there are pointers (`Repeats.count_le`).
* `StartsRepeat.result_eq_error_iff`, `StartsRepeat.exists_repeats` — in a stream,
  a repetition is refused exactly if it covers more than the address space, and
  otherwise the stream goes on from the state that it leaves.
* `length_le_of_parse` — a stream makes at most one binding for each pointer of the
  address space for each of its bytes.
-/

namespace MachImage.BindStream

/-- What a repetition makes of a state: its bindings, and the state it leaves. -/
structure Repeats (s : State) (count skip : Nat) (made : List Binding) (after : State) : Prop where
  length : made.length = count
  /-- There are at most as many as there are pointers in the address space. -/
  count_le : count ≤ 2 ^ 30
  /-- They differ in their offsets only, and each is a pointer and the bytes passed over behind the
  one before it. -/
  binding : ∀ i < count, ∃ offset : UInt32, made[i]? = some { s with offset } ∧
    offset.toNat = (s.offset.toNat + i * (skip + 4)) % 2 ^ 32
  /-- No place is bound twice. -/
  distinct : (made.map Binding.offset).Nodup
  /-- The state is left where one more would be. -/
  final : ∃ offset : UInt32, after = { s with offset } ∧
    offset.toNat = (s.offset.toNat + count * (skip + 4)) % 2 ^ 32
  unchanged : count = 0 → after = s

/-! ## Places -/

/-- A state moved by a distance is at the sum, modulo the size of the address space. -/
theorem toNat_offset_advance (s : State) (n : Nat) :
    (s.advance (UInt32.ofNat n)).offset.toNat = (s.offset.toNat + n) % 2 ^ 32 := by
  rw [State.advance, UInt32.toNat_add, UInt32.toNat_ofNat', Nat.add_mod_mod]

/-- The distance of a repetition is a multiple of a pointer and what is passed over, no matter that
both numbers are cut to 32 bits. -/
theorem repeated_distance (i : Nat) (skip : UInt64) :
    UInt32.ofNat i * (skip.toUInt32 + pointerSize) = UInt32.ofNat (i * (skip.toNat + 4)) := by
  rw [← Draft.ofNat_toNat_add_four, UInt32.ofNat_mul]

/-- Within a span of at most `size`, steps of a fixed distance lead to different places modulo
`size`. -/
theorem add_mul_mod_injective {size start step count i j : Nat} (hstep : 0 < step)
    (hspan : count * step ≤ size) (hi : i < count) (hj : j < count)
    (h : (start + i * step) % size = (start + j * step) % size) : i = j := by
  wlog hij : i ≤ j generalizing i j
  · exact (this hj hi h.symm (by omega)).symm
  -- the difference of the two is a multiple of `size` and less than `size`
  have hdvd : size ∣ (start + j * step) - (start + i * step) :=
    Nat.dvd_of_mod_eq_zero (Nat.sub_mod_eq_zero_of_mod_eq h.symm)
  have hdiff : (start + j * step) - (start + i * step) = (j - i) * step := by
    rw [Nat.add_sub_add_left, Nat.sub_mul]
  have hlt : (j - i) * step < size :=
    Nat.lt_of_lt_of_le (Nat.mul_lt_mul_of_pos_right (by omega) hstep) hspan
  rw [hdiff] at hdvd
  have hzero : (j - i) * step = 0 := Nat.eq_zero_of_dvd_of_lt hdvd hlt
  rcases Nat.mul_eq_zero.1 hzero with h0 | h0
  · omega
  · omega

/-! ## One repetition -/

/-- A repetition that covers at most the address space binds at most as often as there are pointers
in it. -/
theorem count_le_of_span {count skip : Nat} (h : count * (skip + 4) ≤ 2 ^ 32) : count ≤ 2 ^ 30 := by
  have hfour : count * 4 ≤ count * (skip + 4) := Nat.mul_le_mul_left count (Nat.le_add_left 4 skip)
  omega

/-- **One repetition.**  A repeated bind that covers at most the address space makes the bindings of
a repetition. -/
theorem repeats {count skip : UInt64} (h : count.toNat * (skip.toNat + 4) ≤ 2 ^ 32) (imm : UInt8)
    (s : State) :
    Repeats s count.toNat skip.toNat ((Instruction.mk (.bindRepeated count skip) imm).bindings s)
      ((Instruction.mk (.bindRepeated count skip) imm).next s) := by
  rw [Instruction.bindings_bindRepeated, Instruction.next_bindRepeated]
  simp only [repeated_distance]
  constructor
  case length => simp
  case count_le => exact count_le_of_span h
  case binding =>
    intro i hi
    refine ⟨_, ?_, toNat_offset_advance s _⟩
    rw [List.getElem?_map, List.getElem?_range hi]
    rfl
  case distinct =>
    rw [List.map_map]
    refine List.Nodup.map_on ?_ List.nodup_range
    intro i hi j hj hsame
    have hplace := congrArg UInt32.toNat hsame
    simp only [Function.comp_apply, toNat_offset_advance] at hplace
    exact add_mul_mod_injective (Nat.succ_pos _) h (List.mem_range.1 hi) (List.mem_range.1 hj)
      hplace
  case final => exact ⟨_, rfl, toNat_offset_advance s _⟩
  case unchanged =>
    intro hzero
    rw [hzero, Nat.zero_mul]
    exact State.advance_zero s

/-! ## Repetitions in a stream -/

/-- Whether a byte and what follows it start with a repeated bind of two numbers, which take so many
bytes behind the first. -/
def StartsRepeat (b : UInt8) (operands : List UInt8) (count skip : UInt64) (used : Nat) : Prop :=
  opcodeBits b = 0xC0 ∧ ∃ n m, Leb128.unsigned? operands = some (count, n) ∧
    Leb128.unsigned? (operands.drop n) = some (skip, m) ∧ used = n + m

/-- Any two numbers can be those of a repeated bind, whatever follows them. -/
theorem startsRepeat_encode (count skip : UInt64) (rest : List UInt8) :
    StartsRepeat 0xC0 ((Operation.bindRepeated count skip).encode ++ rest) count skip
      (Operation.bindRepeated count skip).encode.length := by
  refine ⟨rfl, _, _, ?_, ?_, List.length_append ..⟩
  · rw [Operation.encode, List.append_assoc, Leb128.unsigned?_encodeUnsigned]
  · rw [Operation.encode, List.append_assoc, List.drop_left, Leb128.unsigned?_encodeUnsigned]

namespace Program

/-- The bindings of one more instruction come first. -/
theorem result_cons (head : Head) (i : Instruction) (p : Program) (s : State) :
    (cons head i p).result s = (p.result (i.next s)).map (i.bindings s ++ ·) := by
  unfold result cons
  cases p.fault <;> rfl

/-- Passing over bytes leads to those behind them. -/
theorem decodeFrom_pending {pending : Nat} {bs : List UInt8} (h : pending ≤ bs.length)
    (offset : Nat) :
    decodeFrom pending offset bs = decodeFrom 0 (offset + pending) (bs.drop pending) := by
  have hpassed := decodeFrom_append (bs.take pending) (bs.drop pending) offset
  rwa [List.take_append_drop, List.length_take_of_le h] at hpassed

end Program

namespace StartsRepeat

variable {b : UInt8} {operands : List UInt8} {count skip : UInt64} {used : Nat}

theorem ofByte? (h : StartsRepeat b operands count skip used) :
    Opcode.ofByte? b = some .bindRepeated := by
  rw [Opcode.ofByte?, h.1]
  rfl

/-- The operation that such bytes are read as. -/
theorem decode (h : StartsRepeat b operands count skip used) (offset : Nat) :
    Operation.decode .bindRepeated offset operands = .ok (.bindRepeated count skip, used) := by
  obtain ⟨-, n, m, hcount, hskip, rfl⟩ := h
  rw [Operation.decode, Operation.unsignedOperand_eq_ok_iff.2 hcount]
  simp only [Bind.bind, Except.bind, Operation.unsignedOperand_eq_ok_iff.2 hskip]
  rfl

/-- A repetition is refused where it starts if it covers more than the address space. -/
theorem result_of_tooLong (h : StartsRepeat b operands count skip used)
    (hlong : 2 ^ 32 < count.toNat * (skip.toNat + 4)) (k : Nat) (s : State) :
    (Program.decodeFrom 0 k (b :: operands)).result s = .error (.malformed k .repeatTooLong) := by
  have hobjection : (Instruction.mk (.bindRepeated count skip) (immediateBits b)).objection
      = some .repeatTooLong :=
    if_pos ((Instruction.repeatTooLong_iff count skip).2 hlong)
  have hfault : InstructionFault k b operands (.malformed k .repeatTooLong) :=
    .objection h.ofByte? (h.decode (k + 1)) hobjection
  rw [Program.result, Program.fault_of_instructionFault hfault]

/-- Otherwise the stream goes on behind it, from the state that the repetition leaves. -/
theorem exists_repeats (h : StartsRepeat b operands count skip used)
    (hspan : count.toNat * (skip.toNat + 4) ≤ 2 ^ 32) (k : Nat) (s : State) :
    ∃ made after, Repeats s count.toNat skip.toNat made after ∧
      (Program.decodeFrom 0 k (b :: operands)).result s =
        ((Program.decodeFrom 0 (k + 1 + used) (operands.drop used)).result after).map
          (made ++ ·) := by
  have hshort : Instruction.repeatTooLong count skip = false :=
    Bool.eq_false_iff.2 fun hlong =>
      Nat.not_lt.2 hspan ((Instruction.repeatTooLong_iff count skip).1 hlong)
  have hread : Program.decodeInstruction ⟨k, .bindRepeated, immediateBits b⟩ operands
      = .ok (⟨.bindRepeated count skip, immediateBits b⟩, used) := by
    simp only [Program.decodeInstruction, h.decode (k + 1), Instruction.objection, hshort,
      Bool.false_eq_true, if_false]
  obtain ⟨hused, -⟩ := Program.selfContained_decodeInstruction _ _ _ _ hread
  refine ⟨_, _, repeats hspan (immediateBits b) s, ?_⟩
  rw [Program.decodeFrom_of_read h.ofByte? hread, Program.result_cons,
    Program.decodeFrom_pending hused]

/-- **Which repetitions are refused**: those that cover more than the address space. -/
theorem result_eq_error_iff (h : StartsRepeat b operands count skip used) (k : Nat) (s : State) :
    (Program.decodeFrom 0 k (b :: operands)).result s = .error (.malformed k .repeatTooLong) ↔
      2 ^ 32 < count.toNat * (skip.toNat + 4) := by
  refine ⟨fun hrefused => ?_, fun hlong => h.result_of_tooLong hlong k s⟩
  by_contra hspan
  -- what comes behind an accepted repetition is at fault further on
  obtain ⟨made, after, -, hresult⟩ := h.exists_repeats (Nat.not_lt.1 hspan) k s
  rw [hrefused] at hresult
  cases hlater : (Program.decodeFrom 0 (k + 1 + used) (operands.drop used)).fault with
  | none =>
    rw [Program.result, hlater] at hresult
    cases hresult
  | some e =>
    rw [Program.result, hlater] at hresult
    cases hresult
    obtain ⟨o, ho, hle, -⟩ := Program.liesBetween_fault hlater
    cases ho
    omega

end StartsRepeat

/-! ## How many bindings there are -/

/-- An instruction that a stream may hold makes at most one binding for each pointer of the address
space. -/
theorem length_bindings_le {i : Instruction} (h : i.isEncodable = true) (s : State) :
    (i.bindings s).length ≤ 2 ^ 30 := by
  obtain ⟨op, imm⟩ := i
  cases op with
  | bind | bindAddAddress | bindAddScaled => exact Nat.one_le_two_pow
  | bindRepeated count skip =>
    rw [Instruction.isEncodable, Bool.and_eq_true, decide_eq_true_eq, decide_eq_true_eq] at h
    have hrepeats := repeats h.2 imm s
    exact hrepeats.length ▸ hrepeats.count_le
  | _ => exact Nat.zero_le _

theorem length_run_le {is : List Instruction} (h : ∀ i ∈ is, i.isEncodable = true) (s : State) :
    (Program.run s is).length ≤ is.length * 2 ^ 30 := by
  induction is generalizing s with
  | nil => exact Nat.zero_le _
  | cons i is ih =>
    have hfirst : (i.bindings s).length ≤ 2 ^ 30 :=
      length_bindings_le (h i (List.mem_cons_self ..)) s
    have hrest := ih (fun j hj => h j (List.mem_cons_of_mem i hj)) (i.next s)
    rw [Program.run, List.length_append, List.length_cons, Nat.succ_mul]
    omega

/-- A stream makes at most one binding for each pointer of the address space for each of its
bytes. -/
theorem length_le_of_parse {bs : List UInt8} {r : List Binding} (h : parse bs = .ok r) :
    r.length ≤ bs.length * 2 ^ 30 := by
  obtain ⟨-, rfl⟩ := parse_eq_ok_iff.1 h
  calc (Program.run {} (Program.decode bs).instructions).length
      ≤ (Program.decode bs).instructions.length * 2 ^ 30 :=
        length_run_le (fun _ hi => Program.isEncodable_of_mem hi) {}
    _ ≤ bs.length * 2 ^ 30 := Nat.mul_le_mul_right _ (Program.length_instructions_le 0 0 bs)

/-- **Repeated binds are exact and bounded.**  Any two numbers of 64 bits can be those of a repeated
bind.  From any state, it is refused where it starts exactly if its count times a pointer and the
bytes passed over is more than the size of the address space.  Otherwise its bindings and the state
it leaves are those of a repetition, and the stream goes on behind its operands.  So a stream makes
at most one binding for each pointer of the address space for each of its bytes. -/
theorem bindRepeated_exact :
    (∀ (count skip : UInt64) (rest : List UInt8),
      StartsRepeat 0xC0 ((Operation.bindRepeated count skip).encode ++ rest) count skip
        (Operation.bindRepeated count skip).encode.length) ∧
    (∀ (s : State) (k : Nat) (b : UInt8) (operands : List UInt8) (count skip : UInt64) (used : Nat),
      StartsRepeat b operands count skip used →
      ((Program.decodeFrom 0 k (b :: operands)).result s = .error (.malformed k .repeatTooLong) ↔
        2 ^ 32 < count.toNat * (skip.toNat + 4)) ∧
      (count.toNat * (skip.toNat + 4) ≤ 2 ^ 32 →
        ∃ made after, Repeats s count.toNat skip.toNat made after ∧
          (Program.decodeFrom 0 k (b :: operands)).result s =
            ((Program.decodeFrom 0 (k + 1 + used) (operands.drop used)).result after).map
              (made ++ ·))) ∧
    ∀ bs r, parse bs = .ok r → r.length ≤ bs.length * 2 ^ 30 := by
  refine ⟨startsRepeat_encode, ?_, fun bs r => length_le_of_parse⟩
  intro s k b operands count skip used h
  exact ⟨h.result_eq_error_iff k s, fun hspan => h.exists_repeats hspan k s⟩

/-- A repetition that covers the whole address space, and one that covers a byte more. -/
theorem bindRepeated_exact_wholeSpace :
    StartsRepeat 0xC0 [0x01, 0xFC, 0xFF, 0xFF, 0xFF, 0x0F, 0x90] 1 0xFFFFFFFC 6 ∧
      (∃ made after, Repeats { offset := 8 } 1 0xFFFFFFFC made after ∧
        (Program.decodeFrom 0 0 [0xC0, 0x01, 0xFC, 0xFF, 0xFF, 0xFF, 0x0F, 0x90]).result
            { offset := 8 } =
          ((Program.decodeFrom 0 7 [0x90]).result after).map (made ++ ·)) ∧
      StartsRepeat 0xC0 [0x01, 0xFD, 0xFF, 0xFF, 0xFF, 0x0F] 1 0xFFFFFFFD 6 ∧
      parse [0xC0, 0x01, 0xFD, 0xFF, 0xFF, 0xFF, 0x0F] = .error (.malformed 0 .repeatTooLong) ∧
      ∃ r, parse [0x90, 0x90] = .ok r ∧ r.length ≤ 2 * 2 ^ 30 := by
  have hwhole : StartsRepeat 0xC0 [0x01, 0xFC, 0xFF, 0xFF, 0xFF, 0x0F, 0x90] 1 0xFFFFFFFC 6 :=
    ⟨rfl, 1, 5, rfl, rfl, rfl⟩
  have hbeyond : StartsRepeat 0xC0 [0x01, 0xFD, 0xFF, 0xFF, 0xFF, 0x0F] 1 0xFFFFFFFD 6 :=
    ⟨rfl, 1, 5, rfl, rfl, rfl⟩
  obtain ⟨-, hexact, hbounded⟩ := bindRepeated_exact
  refine ⟨hwhole, (hexact _ 0 _ _ _ _ _ hwhole).2 (by decide), hbeyond, ?_, ?_⟩
  · exact (hexact {} 0 _ _ _ _ _ hbeyond).1.2 (by decide)
  · exact ⟨[{}, { offset := 4 }], rfl, hbounded [0x90, 0x90] _ rfl⟩

end MachImage.BindStream
