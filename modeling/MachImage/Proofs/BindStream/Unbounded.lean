import MachImage.BindStream.Run
import Mathlib.Tactic.Ring

/-!
# Bind streams with an unbounded offset

A `Draft` is what the next binding would say, with an offset that is a natural
number and never wraps around.  Each instruction says what it changes in the
draft and which bindings it makes of it; the offset is reduced modulo the size
of the address space only when a binding is made.  What an immediate says is
stated apart from the way a stream is read: a library ordinal by its number
(`placeOrdinal`, `specialOrdinal`), a type by the table of `namedTypes`, flags by
the bits of the immediate (`flagsOfImmediate`).

`run_emit`: a run whose offsets wrap at every step makes the bindings that the
run of drafts makes.  The state of the one is at every point the binding that
the draft of the other would be made into (`next_emit`, `bindings_emit`).
-/

namespace MachImage.BindStream

/-- What the next binding would say. -/
structure Draft where
  library : Option LibraryOrdinal := none
  symbol : String := ""
  flags : Flags symbolFlags := ⟨0⟩
  type : Option BindType := none
  segment : UInt8 := 0
  /-- The place within the segment, before it is reduced. -/
  offset : Nat := 0
  addend : Int64 := 0
  deriving DecidableEq, Repr

/-- The ordinal of a place among the loaded libraries, from one on; zero is the image itself. -/
def placeOrdinal (n : Nat) : LibraryOrdinal :=
  if n = 0 then .selfImage else .index (UInt32.ofNat n)

/-- The special ordinal of an immediate: zero, or a negative number of four bits. -/
def specialOrdinal (imm : UInt8) : LibraryOrdinal :=
  if imm = 0 then .selfImage
  else if imm = 15 then .executable
  else if imm = 14 then .dynamicLookup
  else .weakLookup

/-- The immediates that stand for a special ordinal. -/
def specialImmediates : List UInt8 := [0, 13, 14, 15]

/-- The immediates that stand for a type with a name. -/
def namedTypes : List (UInt8 × BindType) :=
  [(1, .pointer), (2, .textAbsolute32), (3, .textPcrel32)]

/-- The type of an immediate: one with a name, or else the immediate as it stands. -/
def typeOfImmediate (imm : UInt8) : BindType := (namedTypes.lookup imm).getD (.other imm)

/-- The flags of an immediate: bit 0 says that the import is weak, bit 3 that the definition is not
weak, and the other bits say nothing. -/
def flagsOfImmediate (imm : UInt8) : Flags symbolFlags :=
  ⟨(if imm.toNat.testBit 0 then 0x1 else 0) + (if imm.toNat.testBit 3 then 0x8 else 0)⟩

namespace Draft

/-- The binding that a draft is made into. -/
def emit (d : Draft) : Binding :=
  { library := d.library, symbol := d.symbol, flags := d.flags, type := d.type,
    segment := d.segment, offset := UInt32.ofNat d.offset, addend := d.addend }

/-- The draft moved by a distance. -/
def advance (d : Draft) (distance : Nat) : Draft := { d with offset := d.offset + distance }

/-- So many bindings, the draft moved by the same distance after each, and the draft left. -/
def repeated (d : Draft) (distance : Nat) : (count : Nat) → List Binding × Draft
  | 0 => ([], d)
  | count + 1 =>
    let rest := repeated (d.advance distance) distance count
    (d.emit :: rest.1, rest.2)

/-- The bindings that an instruction makes of a draft, and the draft it leaves. -/
def step (d : Draft) (i : Instruction) : List Binding × Draft :=
  match i.operation with
  | .done => ([], d)
  | .setOrdinalImmediate => ([], { d with library := some (placeOrdinal i.immediate.toNat) })
  | .setOrdinalUnsigned ordinal => ([], { d with library := some (placeOrdinal ordinal.toNat) })
  | .setOrdinalSpecial => ([], { d with library := some (specialOrdinal i.immediate) })
  | .setSymbol name =>
    ([], { d with symbol := name, flags := flagsOfImmediate i.immediate })
  | .setType => ([], { d with type := some (typeOfImmediate i.immediate) })
  | .setAddend addend => ([], { d with addend })
  | .setSegmentAndOffset offset =>
    ([], { d with segment := i.immediate, offset := offset.toNat })
  | .addAddress delta => ([], d.advance delta.toNat)
  | .bind => ([d.emit], d.advance 4)
  | .bindAddAddress delta => ([d.emit], d.advance (delta.toNat + 4))
  | .bindAddScaled => ([d.emit], d.advance (4 + 4 * i.immediate.toNat))
  | .bindRepeated count skip => d.repeated (skip.toNat + 4) count.toNat

/-- The bindings that instructions make from a draft on. -/
def run (d : Draft) : List Instruction → List Binding
  | [] => []
  | i :: is => (d.step i).1 ++ run (d.step i).2 is

/-! ## Moving -/

@[simp] theorem emit_advance (d : Draft) (n : Nat) :
    (d.advance n).emit = State.advance d.emit (UInt32.ofNat n) := by
  simp only [emit, advance, State.advance, UInt32.ofNat_add]

theorem ofNat_toNat_add_four (n : UInt64) : UInt32.ofNat (n.toNat + 4) = n.toUInt32 + pointerSize :=
  UInt32.ofNat_add n.toNat 4

/-- Moving past what is skipped and then past a pointer is moving the draft past both. -/
theorem advance_advance_emit (d : Draft) (skip : UInt64) :
    (State.advance d.emit skip.toUInt32).advance pointerSize
      = (d.advance (skip.toNat + 4)).emit := by
  rw [emit_advance, ofNat_toNat_add_four]
  simp only [State.advance, UInt32.add_assoc]

/-- The loop of a repeated bind does step by step what a repetition makes of the draft. -/
theorem repeatBind_emit (skip : UInt64) (count : Nat) (made : List Binding) (d : Draft) :
    repeatBind skip.toUInt32 count made d.emit
      = (made.reverse ++ (d.repeated (skip.toNat + 4) count).1,
          (d.repeated (skip.toNat + 4) count).2.emit) := by
  induction count generalizing made d with
  | zero => simp [repeatBind, repeated]
  | succ count ih =>
    rw [repeatBind, advance_advance_emit, ih, List.reverse_cons, List.append_assoc]
    rfl

end Draft

/-! ## The loop of a repeated bind in closed form -/

theorem State.advance_zero (s : State) : s.advance 0 = s := by
  simp [State.advance]

/-- Moving once and then `k` times is moving `k + 1` times. -/
theorem State.advance_mul_succ (s : State) (k : Nat) (n : UInt32) :
    (s.advance n).advance (UInt32.ofNat k * n) = s.advance (UInt32.ofNat (k + 1) * n) := by
  have hsum : s.offset + n + UInt32.ofNat k * n = s.offset + (UInt32.ofNat k + 1) * n := by
    rw [UInt32.add_mul, UInt32.one_mul, UInt32.add_comm (UInt32.ofNat k * n), UInt32.add_assoc]
  simp only [State.advance, UInt32.ofNat_add, hsum]
  rfl

/-- The loop binds at multiples of the bytes to skip and a pointer, and ends at the next one. -/
theorem repeatBind_eq (skip : UInt32) (count : Nat) (made : List Binding) (s : State) :
    repeatBind skip count made s
      = (made.reverse ++ (List.range count).map fun k =>
            s.advance (UInt32.ofNat k * (skip + pointerSize)),
          s.advance (UInt32.ofNat count * (skip + pointerSize))) := by
  have honce : ∀ s : State, (s.advance skip).advance pointerSize = s.advance (skip + pointerSize) :=
    fun s => by simp only [State.advance, UInt32.add_assoc]
  induction count generalizing made s with
  | zero => simp [repeatBind, State.advance_zero]
  | succ count ih =>
    rw [repeatBind, ih, honce, State.advance_mul_succ, List.reverse_cons, List.append_assoc,
      List.range_succ_eq_map, List.map_cons, List.map_map]
    simp only [State.advance_mul_succ, Function.comp_def, List.singleton_append]
    rw [show UInt32.ofNat 0 = 0 from rfl, UInt32.zero_mul, State.advance_zero]

theorem Instruction.bindings_bindRepeated (count skip : UInt64) (imm : UInt8) (s : State) :
    (mk (.bindRepeated count skip) imm).bindings s
      = (List.range count.toNat).map fun k =>
          s.advance (UInt32.ofNat k * (skip.toUInt32 + pointerSize)) :=
  congrArg Prod.fst (repeatBind_eq skip.toUInt32 count.toNat [] s)

theorem Instruction.next_bindRepeated (count skip : UInt64) (imm : UInt8) (s : State) :
    (mk (.bindRepeated count skip) imm).next s
      = s.advance (UInt32.ofNat count.toNat * (skip.toUInt32 + pointerSize)) :=
  congrArg Prod.snd (repeatBind_eq skip.toUInt32 count.toNat [] s)

/-! ## Ordinals -/

theorem ofSigned?_natCast {n : Nat} (h : n < UInt32.size) :
    LibraryOrdinal.ofSigned? n = some (placeOrdinal n) := by
  unfold LibraryOrdinal.ofSigned? placeOrdinal
  by_cases h0 : n = 0
  · simp [h0]
  · rw [if_neg (by omega), if_neg (by omega), if_neg (by omega), if_neg (by omega),
      if_pos (by omega), if_neg h0, Int.toNat_natCast]

theorem ofSigned?_special {imm : UInt8} (h : imm ∈ specialImmediates) :
    LibraryOrdinal.ofSigned? (if imm = 0 then 0 else (imm.toNat : Int) - 16)
      = some (specialOrdinal imm) := by
  simp only [specialImmediates, List.mem_cons, List.not_mem_nil, or_false] at h
  rcases h with rfl | rfl | rfl | rfl <;> rfl

/-! ## Immediates -/

/-- What holds of the numbers of four bits holds of every immediate. -/
@[elab_as_elim]
theorem forall_immediate {motive : UInt8 → Prop} {imm : UInt8} (himm : imm < 16)
    (h : ∀ n : Fin 16, motive (UInt8.ofNat n)) : motive imm := by
  have hnumber := h ⟨imm.toNat, UInt8.lt_iff_toNat_lt.1 himm⟩
  rwa [UInt8.ofNat_toNat] at hnumber

/-- The type of an immediate is read by its table. -/
theorem BindType.ofImmediate_eq {imm : UInt8} (h : imm < 16) :
    BindType.ofImmediate imm = typeOfImmediate imm := by
  refine forall_immediate h fun n => ?_
  revert n
  decide

/-- Of an immediate, the two bits with a name are kept as flags. -/
theorem ofBits_immediate {imm : UInt8} (h : imm < 16) :
    Flags.ofBits symbolFlags imm.toUInt32 = flagsOfImmediate imm := by
  refine forall_immediate h fun n => ?_
  revert n
  decide

/-! ## Repetitions that are accepted -/

/-- Saturation and overflow refuse a repetition exactly if it covers more than the address space. -/
theorem Instruction.repeatTooLong_iff (count skip : UInt64) :
    repeatTooLong count skip = true ↔ UInt32.size < count.toNat * (skip.toNat + 4) := by
  have hsize : pointerSize.toNat = 4 := rfl
  rw [repeatTooLong, hsize, Bool.or_eq_true, decide_eq_true_eq, decide_eq_true_eq]
  rcases Nat.le_total (skip.toNat + 4) (UInt64.size - 1) with hle | hle
  · rw [Nat.min_eq_left hle]
    constructor
    · rintro (h | h)
      · exact Nat.lt_of_lt_of_le (by decide) h
      · exact h
    · exact Or.inr
  · rw [Nat.min_eq_right hle]
    rcases Nat.eq_zero_or_pos count.toNat with h0 | hpos
    · simp [h0]
    · have hone : UInt64.size - 1 ≤ count.toNat * (UInt64.size - 1) := Nat.le_mul_of_pos_left _ hpos
      have hmul : count.toNat * (UInt64.size - 1) ≤ count.toNat * (skip.toNat + 4) :=
        Nat.mul_le_mul_left _ hle
      have hlt : UInt32.size < UInt64.size - 1 := by decide
      constructor
      · intro _
        omega
      · intro _
        exact Or.inr (by omega)

/-! ## Instructions -/

namespace Instruction

/-- Whether a stream may hold an instruction: an immediate has four bits, an ordinal has a meaning,
a name holds no zero character, and a repetition covers at most the address space. -/
def isEncodable (i : Instruction) : Bool :=
  i.immediate < 16 &&
    match i.operation with
    | .setOrdinalUnsigned ordinal => ordinal.toNat < UInt32.size
    | .setOrdinalSpecial => i.immediate ∈ specialImmediates
    | .setSymbol name => '\x00' ∉ name.toList
    | .bindRepeated count skip => count.toNat * (skip.toNat + 4) ≤ UInt32.size
    | _ => true

theorem immediate_lt {i : Instruction} (h : i.isEncodable = true) : i.immediate < 16 := by
  rw [isEncodable, Bool.and_eq_true, decide_eq_true_eq] at h
  exact h.1

/-- An ordinal that a stream may hold has a meaning, and it is the one that a draft takes. -/
theorem ofSigned?_ordinal? {i : Instruction} (h : i.isEncodable = true) (d : Draft) {n : Int}
    (hn : i.ordinal? = some n) :
    ∃ ordinal, LibraryOrdinal.ofSigned? n = some ordinal ∧
      (d.step i).2 = { d with library := some ordinal } := by
  have himm : i.immediate < 16 := immediate_lt h
  rw [isEncodable, Bool.and_eq_true] at h
  obtain ⟨op, imm⟩ := i
  cases op with
  | setOrdinalImmediate =>
    cases hn
    refine ⟨_, ofSigned?_natCast ?_, rfl⟩
    have hlt : imm.toNat < 16 := UInt8.lt_iff_toNat_lt.1 himm
    exact Nat.lt_trans hlt (by decide)
  | setOrdinalUnsigned ordinal =>
    cases hn
    exact ⟨_, ofSigned?_natCast (by simpa using h.2), rfl⟩
  | setOrdinalSpecial =>
    cases hn
    exact ⟨_, ofSigned?_special (by simpa using h.2), rfl⟩
  | _ => cases hn

/-- A number that has a meaning as an ordinal is not refused. -/
theorem ordinalObjection_eq_none {n : Int} {ordinal : LibraryOrdinal}
    (h : LibraryOrdinal.ofSigned? n = some ordinal) : ordinalObjection n = none := by
  have hmax : Int64.maxValue.toInt = 2 ^ 63 - 1 := rfl
  have hsize : UInt32.size = 2 ^ 32 := rfl
  have hle : n ≤ Int64.maxValue.toInt := by
    by_contra hgt
    rw [LibraryOrdinal.ofSigned?, if_neg (by omega), if_neg (by omega), if_neg (by omega),
      if_neg (by omega), if_neg (by omega)] at h
    cases h
  rw [ordinalObjection, if_neg (by omega), h]

/-- There is no reason to refuse an instruction that a stream may hold. -/
theorem objection_eq_none {i : Instruction} (h : i.isEncodable = true) : i.objection = none := by
  have hordinal : ∀ n, i.ordinal? = some n → ordinalObjection n = none := fun n hn =>
    have ⟨_, hsome, _⟩ := ofSigned?_ordinal? h {} hn
    ordinalObjection_eq_none hsome
  have hbind : i.ordinal?.bind ordinalObjection = none := Option.bind_eq_none_iff.2 hordinal
  obtain ⟨op, imm⟩ := i
  cases op with
  | bindRepeated count skip =>
    rw [isEncodable, Bool.and_eq_true, decide_eq_true_eq, decide_eq_true_eq] at h
    exact if_neg fun hlong => Nat.not_lt.2 h.2 ((repeatTooLong_iff count skip).1 hlong)
  | _ => exact hbind

end Instruction

namespace Draft

/-- The bindings of an instruction are those it makes of the draft. -/
theorem bindings_emit (i : Instruction) (d : Draft) : i.bindings d.emit = (d.step i).1 := by
  obtain ⟨op, imm⟩ := i
  cases op with
  | bindRepeated count skip => exact congrArg Prod.fst (repeatBind_emit skip count.toNat [] d)
  | _ => rfl

/-- An instruction changes the state as it changes the draft. -/
theorem next_emit {i : Instruction} (h : i.isEncodable = true) (d : Draft) :
    i.next d.emit = (d.step i).2.emit := by
  have hlibrary : ∀ n, i.ordinal? = some n →
      (d.step i).2.emit = { d.emit with library := i.ordinal?.bind LibraryOrdinal.ofSigned? } := by
    intro n hn
    obtain ⟨ordinal, hsome, hstep⟩ := Instruction.ofSigned?_ordinal? h d hn
    rw [hstep, hn, Option.bind_some, hsome]
    rfl
  have himm : i.immediate < 16 := Instruction.immediate_lt h
  obtain ⟨op, imm⟩ := i
  cases op with
  | setOrdinalImmediate => exact (hlibrary _ rfl).symm
  | setOrdinalUnsigned ordinal => exact (hlibrary _ rfl).symm
  | setOrdinalSpecial => exact (hlibrary _ rfl).symm
  | setSymbol name => rw [Instruction.next, step, ofBits_immediate himm]; rfl
  | setType => rw [Instruction.next, step, BindType.ofImmediate_eq himm]; rfl
  | addAddress delta => exact (emit_advance d _).symm
  | bind => exact (emit_advance d _).symm
  | bindAddAddress delta =>
    rw [step, emit_advance, ofNat_toNat_add_four]
    rfl
  | bindAddScaled =>
    have hscaled : UInt32.ofNat (4 + 4 * imm.toNat) = pointerSize + imm.toUInt32 * pointerSize := by
      have himm : UInt32.ofNat imm.toNat = imm.toUInt32 := UInt32.toNat_inj.1 (by simp)
      rw [UInt32.ofNat_add, Nat.mul_comm, UInt32.ofNat_mul, himm]
      rfl
    rw [step, emit_advance, hscaled]
    rfl
  | bindRepeated count skip => exact congrArg Prod.snd (repeatBind_emit skip count.toNat [] d)
  | _ => rfl

/-- A run whose offsets wrap makes the bindings of the run whose offsets do not. -/
theorem run_emit {is : List Instruction} (h : ∀ i ∈ is, i.isEncodable = true) (d : Draft) :
    Program.run d.emit is = d.run is := by
  induction is generalizing d with
  | nil => rfl
  | cons i is ih =>
    rw [Program.run, run, bindings_emit, next_emit (h i (List.mem_cons_self ..)),
      ih fun j hj => h j (List.mem_cons_of_mem _ hj)]

end Draft

end MachImage.BindStream
