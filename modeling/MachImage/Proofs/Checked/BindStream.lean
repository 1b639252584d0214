import MachImage.Proofs.BindStream.Composition
import MachImage.Proofs.Checked.Reader

/-!
# Bind streams without a stop

The bindings of a stream as a program that can stop: it goes over the stream with
a cursor, one instruction at a time, and changes the state of the binding by
arithmetic of 32 bits.

An instruction is read as `Program.decodeInstruction` says (`reads_instruction`)
and moves the cursor forward inside the stream, so that the next one can be read
from there.  One step of the loop takes the program from one instruction to the
next (`step_of_decoded`), and the whole makes the bindings of the stream
(`interpret_eq_some`).  A fault lies in the stream, so that its offset can be
counted from the start of the file as well (`shift_eq_some`).
-/

namespace MachImage.Checked

open BindStream

/-! ## Reading instructions -/

theorem drop_windowFrom (image : ByteArray) (pos n : Nat) :
    (windowFrom image pos).drop n = windowFrom image (pos + n) := by
  rw [windowFrom_eq, windowFrom_eq, List.drop_drop]

/-- The operation of an opcode with its operands, which start at the cursor. -/
def operation : Opcode → CheckedReader Operation
  | .done => pure .done
  | .setOrdinalImmediate => pure .setOrdinalImmediate
  | .setOrdinalUnsigned => do return .setOrdinalUnsigned (← CheckedReader.unsignedLeb)
  | .setOrdinalSpecial => pure .setOrdinalSpecial
  | .setSymbol => do return .setSymbol (← CheckedReader.terminatedName)
  | .setType => pure .setType
  | .setAddend => do return .setAddend (← CheckedReader.signedLeb)
  | .setSegmentAndOffset => do return .setSegmentAndOffset (← CheckedReader.unsignedLeb)
  | .addAddress => do return .addAddress (← CheckedReader.unsignedLeb)
  | .bind => pure .bind
  | .bindAddAddress => do return .bindAddAddress (← CheckedReader.unsignedLeb)
  | .bindAddScaled => pure .bindAddScaled
  | .bindRepeated => do
    let count ← CheckedReader.unsignedLeb
    let skip ← CheckedReader.unsignedLeb
    return .bindRepeated count skip

/-- The instruction of an operation, unless it makes no sense. -/
def judged (head : Head) (operation : Operation) : CheckedReader Instruction :=
  let i : Instruction := { operation, immediate := head.immediate }
  match i.objection with
  | some reason => CheckedReader.plain (Reader.fail (.malformed head.offset reason))
  | none => pure i

/-- The instruction whose first byte is `head`, its operands starting at the cursor. -/
def instruction (head : Head) : CheckedReader Instruction := do
  let operation ← operation head.opcode
  judged head operation

/-- A reader reads from the cursor on what a function finds at the front of a list, moves the cursor
over the bytes used and makes no notes.  Where the function fails, so does the reader. -/
def Reads {α : Type} (g : CheckedReader α) (found : Except Error (α × Nat)) (image : ByteArray)
    (pos : Nat) : Prop :=
  match found with
  | .ok (a, used) => g image pos = some ⟨.ok a, pos + used, []⟩ ∧ pos + used ≤ image.size
  | .error e => ∃ cursor, g image pos = some ⟨.error e, cursor, []⟩

section Reads

variable {α β γ : Type} {image : ByteArray} {pos : Nat}

theorem reads_pure (hpos : pos ≤ image.size) (a : α) : Reads (pure a) (.ok (a, 0)) image pos :=
  ⟨rfl, hpos⟩

/-- What is found at the front of the bytes from the cursor on is read. -/
theorem reads_of_follows {g : CheckedReader α} {f : List UInt8 → Option (α × Nat)}
    {e : Nat → Error} {found : Except Error (α × Nat)}
    (h : g.Follows (Reader.scan f e) image pos)
    (hfound : found = (f (windowFrom image pos)).elim (.error (e pos)) .ok) :
    Reads g found image pos := by
  obtain ⟨hrun, hle⟩ := h
  rw [hfound]
  cases hfront : f (windowFrom image pos) with
  | none =>
    rw [Reader.scan, hfront] at hrun
    exact ⟨pos, hrun⟩
  | some operand =>
    rw [Reader.scan, hfront] at hrun hle
    exact ⟨hrun, hle⟩

theorem Reads.map {g : CheckedReader α} {found : Except Error (α × Nat)}
    (h : Reads g found image pos) (f : α → β) :
    Reads (g >>= fun a => pure (f a))
      (do let (a, used) ← found; return (f a, used)) image pos := by
  cases found with
  | error e =>
    obtain ⟨cursor, hrun⟩ := h
    exact ⟨cursor, CheckedReader.bind_of_error hrun⟩
  | ok p =>
    obtain ⟨hrun, hle⟩ := h
    exact ⟨CheckedReader.bind_of_ok hrun, hle⟩

/-- A second operand starts where the first one ends. -/
theorem Reads.pair {g : CheckedReader α} {k : CheckedReader β} {found : Except Error (α × Nat)}
    (hg : Reads g found image pos) (next : Nat → Except Error (β × Nat))
    (hk : ∀ a used, found = .ok (a, used) → pos + used ≤ image.size →
      Reads k (next used) image (pos + used)) (f : α → β → γ) :
    Reads (do
        let a ← g
        let b ← k
        return f a b)
      (do
        let (a, used) ← found
        let (b, used') ← next used
        return (f a b, used + used')) image pos := by
  cases found with
  | error e =>
    obtain ⟨cursor, hrun⟩ := hg
    exact ⟨cursor, CheckedReader.bind_of_error hrun⟩
  | ok p =>
    obtain ⟨a, used⟩ := p
    obtain ⟨hrun, hle⟩ := hg
    have hsecond := (hk a used rfl hle).map (f a)
    simp only [Bind.bind, Except.bind] at hsecond ⊢
    cases hnext : next used with
    | error e =>
      rw [hnext] at hsecond
      obtain ⟨cursor, hrest⟩ := hsecond
      refine ⟨cursor, (CheckedReader.bind_of_ok hrun).trans ?_⟩
      exact congrArg (Option.map _) hrest
    | ok q =>
      obtain ⟨b, used'⟩ := q
      rw [hnext] at hsecond
      obtain ⟨hrest, hle'⟩ := hsecond
      rw [Nat.add_assoc] at hrest hle'
      refine ⟨(CheckedReader.bind_of_ok hrun).trans ?_, hle'⟩
      exact congrArg (Option.map _) hrest

variable (hsize : image.size < 68 * UInt32.size) (hpos : pos ≤ image.size)

include hsize hpos

theorem reads_unsignedLeb :
    Reads CheckedReader.unsignedLeb (Operation.unsignedOperand pos (windowFrom image pos))
      image pos :=
  reads_of_follows (CheckedReader.follows_unsignedLeb hsize hpos) <| by
    unfold Operation.unsignedOperand
    cases Leb128.unsigned? (windowFrom image pos) <;> rfl

theorem reads_signedLeb :
    Reads CheckedReader.signedLeb (Operation.signedOperand pos (windowFrom image pos)) image pos :=
  reads_of_follows (CheckedReader.follows_signedLeb hsize hpos) <| by
    unfold Operation.signedOperand
    cases Leb128.signed? (windowFrom image pos) <;> rfl

theorem reads_terminatedName :
    Reads CheckedReader.terminatedName (Operation.nameOperand pos (windowFrom image pos))
      image pos :=
  reads_of_follows (CheckedReader.follows_terminatedName hsize hpos) <| by
    unfold Operation.nameOperand
    cases Name.terminated? (windowFrom image pos) <;> rfl

theorem reads_operation (opcode : Opcode) :
    Reads (operation opcode) (Operation.decode opcode pos (windowFrom image pos)) image pos := by
  have hunsigned := reads_unsignedLeb hsize hpos
  cases opcode with
  | done => exact reads_pure hpos Operation.done
  | setOrdinalImmediate => exact reads_pure hpos Operation.setOrdinalImmediate
  | setOrdinalUnsigned => exact hunsigned.map Operation.setOrdinalUnsigned
  | setOrdinalSpecial => exact reads_pure hpos Operation.setOrdinalSpecial
  | setSymbol => exact (reads_terminatedName hsize hpos).map Operation.setSymbol
  | setType => exact reads_pure hpos Operation.setType
  | setAddend => exact (reads_signedLeb hsize hpos).map Operation.setAddend
  | setSegmentAndOffset => exact hunsigned.map Operation.setSegmentAndOffset
  | addAddress => exact hunsigned.map Operation.addAddress
  | bind => exact reads_pure hpos Operation.bind
  | bindAddAddress => exact hunsigned.map Operation.bindAddAddress
  | bindAddScaled => exact reads_pure hpos Operation.bindAddScaled
  | bindRepeated =>
    refine hunsigned.pair
      (fun used => Operation.unsignedOperand (pos + used) ((windowFrom image pos).drop used))
      (fun count used _ hle => ?_) Operation.bindRepeated
    rw [drop_windowFrom]
    exact reads_unsignedLeb hsize hle

/-- Operands are read before the instruction is judged. -/
theorem reads_instruction {head : Head} (hhead : head.offset + 1 = pos) :
    Reads (instruction head) (Program.decodeInstruction head (windowFrom image pos)) image pos := by
  have hoperation := reads_operation hsize hpos head.opcode
  unfold Program.decodeInstruction
  rw [hhead]
  cases hdecode : Operation.decode head.opcode pos (windowFrom image pos) with
  | error e =>
    rw [hdecode] at hoperation
    obtain ⟨cursor, hrun⟩ := hoperation
    exact ⟨cursor, CheckedReader.bind_of_error hrun⟩
  | ok p =>
    obtain ⟨operation, used⟩ := p
    rw [hdecode] at hoperation
    obtain ⟨hrun, hle⟩ := hoperation
    have hjudge := CheckedReader.bind_of_ok (k := judged head) hrun
    unfold judged at hjudge
    dsimp only at hjudge ⊢
    cases hobjection : (⟨operation, head.immediate⟩ : Instruction).objection with
    | some reason =>
      rw [hobjection] at hjudge
      exact ⟨pos + used, hjudge⟩
    | none =>
      rw [hobjection] at hjudge
      exact ⟨hjudge, hle⟩

end Reads

/-! ## Running instructions -/

/-- The state after an instruction.  The distance given by a count of pointers is a product of 32
bits; the sums of the others wrap around. -/
def nextState (i : Instruction) (s : State) : Option State :=
  match i.operation with
  | .bindAddScaled => do
    let distance ← product UInt32.size i.immediate.toNat pointerSize.toNat
    return s.advance (pointerSize + UInt32.ofNat distance)
  | _ => some (i.next s)

/-- An immediate operand is too small for the product to stop the program. -/
theorem nextState_eq_some (i : Instruction) (s : State) : nextState i s = some (i.next s) := by
  unfold nextState
  split
  next hoperation =>
    have himmediate : i.immediate.toNat * 4 < UInt32.size := by
      have hlt := i.immediate.toNat_lt
      have hbits : UInt32.size = 4294967296 := rfl
      omega
    have hdistance : UInt32.ofNat (i.immediate.toNat * 4) = i.immediate.toUInt32 * 4 := by
      rw [UInt32.ofNat_mul, UInt32.ofNat_uInt8ToNat]
      rfl
    have hpointer : pointerSize.toNat = 4 := rfl
    rw [hpointer, product_eq_some himmediate, Instruction.next, hoperation]
    simp only [Option.bind_eq_bind, Option.bind_some, hdistance]
    rfl
  next => rfl

/-- One instruction: the bindings that it makes and the state after it. -/
def step (s : State) : CheckedReader (List Binding × State) := do
  let offset ← CheckedReader.plain Reader.position
  let b ← CheckedReader.u8
  match Opcode.ofByte? b with
  | none => CheckedReader.plain (Reader.fail (.unknownBindOpcode (opcodeBits b) offset))
  | some opcode =>
    CheckedReader.plain (Reader.note (.instructionFound offset opcode (immediateBits b)))
    let i ← instruction { offset, opcode, immediate := immediateBits b }
    let next ← CheckedReader.value (nextState i s)
    return (i.bindings s, next)

/-- The instructions up to the end of the stream, from a state on.  A loop that goes round more
often than `fuel` times counts as a stop. -/
def loop (fuel : Nat) (s : State) : CheckedReader (List Binding) := fun stream pos =>
  if stream.size ≤ pos then some ⟨.ok [], pos, []⟩
  else
    match fuel with
    | 0 => none
    | fuel + 1 =>
      (do
        let (made, next) ← step s
        let more ← loop fuel next
        return made ++ more : CheckedReader (List Binding)) stream pos

/-- The bindings of a stream, or why there are none, and the notes made. -/
def interpret (stream : ByteArray) : Option (Except Error (List Binding) × List Note) :=
  (loop stream.size {} stream 0).map fun outcome =>
    (outcome.result,
      outcome.notes ++
        match outcome.result with
        | .ok bindings => [.bindingsRead bindings.length stream.size]
        | .error _ => [])

section Loop

variable {stream : ByteArray} {pos : Nat} (hsize : stream.size < 68 * UInt32.size)

theorem windowFrom_eq_cons (hpos : pos < stream.size) :
    windowFrom stream pos = stream[pos] :: windowFrom stream (pos + 1) := by
  have hlength : pos < stream.data.toList.length := by simpa using hpos
  rw [windowFrom_eq, windowFrom_eq, List.drop_eq_getElem_cons hlength]
  rfl

/-- The operands of an instruction are passed over at once. -/
theorem decodeFrom_windowFrom {used : Nat} (hused : pos + used ≤ stream.size) :
    Program.decodeFrom used pos (windowFrom stream pos) =
      Program.decodeFrom 0 (pos + used) (windowFrom stream (pos + used)) := by
  have hlength : ((windowFrom stream pos).take used).length = used := by
    rw [List.length_take, length_windowFrom]
    omega
  have happend := Program.decodeFrom_append ((windowFrom stream pos).take used)
    ((windowFrom stream pos).drop used) pos
  rw [hlength, List.take_append_drop, drop_windowFrom] at happend
  exact happend

/-- A program with one more instruction makes the bindings of that instruction first. -/
theorem result_cons (head : Head) (i : Instruction) (p : Program) (s : State) :
    (Program.cons head i p).result s = (p.result (i.next s)).map (i.bindings s ++ ·) := by
  unfold Program.result Program.cons
  cases p.fault <;> rfl

include hsize

section Step

variable (hpos : pos < stream.size) (s : State)

include hpos

theorem u8_eq : CheckedReader.u8 stream pos = some ⟨.ok stream[pos], pos + 1, []⟩ := by
  have hlength : pos < stream.data.toList.length := by simpa using hpos
  have hwindow : window stream pos 1 = [stream[pos]] := by
    rw [window_eq, List.drop_eq_getElem_cons hlength]
    rfl
  have hbytes : Reader.bytes 1 stream pos = ⟨.ok [stream[pos]], pos + 1, []⟩ :=
    hwindow ▸ if_neg (Nat.not_lt.2 hpos)
  rw [(CheckedReader.follows_u8 hsize (Nat.le_of_lt hpos)).eq_some]
  exact congrArg some (Reader.bind_of_ok hbytes)

/-- What a step does once it has the first byte. -/
theorem step_eq :
    step s stream pos =
      ((match Opcode.ofByte? stream[pos] with
        | none => CheckedReader.plain
            (Reader.fail (.unknownBindOpcode (opcodeBits stream[pos]) pos))
        | some opcode => do
          CheckedReader.plain
            (Reader.note (.instructionFound pos opcode (immediateBits stream[pos])))
          let i ← instruction { offset := pos, opcode, immediate := immediateBits stream[pos] }
          let next ← CheckedReader.value (nextState i s)
          return (i.bindings s, next)) : CheckedReader (List Binding × State)) stream (pos + 1) := by
  have hposition : CheckedReader.plain Reader.position stream pos = some ⟨.ok pos, pos, []⟩ := rfl
  rw [step, CheckedReader.bind_of_silent hposition, CheckedReader.bind_of_silent (u8_eq hsize hpos)]

/-- A step from a cursor inside the stream reads the next instruction and leaves the cursor behind
it. -/
theorem step_of_decoded {opcode : Opcode} (hopcode : Opcode.ofByte? stream[pos] = some opcode)
    {i : Instruction} {used : Nat}
    (hdecoded : Program.decodeInstruction ⟨pos, opcode, immediateBits stream[pos]⟩
      (windowFrom stream (pos + 1)) = .ok (i, used)) :
    step s stream pos = some ⟨.ok (i.bindings s, i.next s), pos + 1 + used,
      [.instructionFound pos opcode (immediateBits stream[pos])]⟩ ∧
        pos + 1 + used ≤ stream.size := by
  have hreads := reads_instruction hsize hpos
    (rfl : (⟨pos, opcode, immediateBits stream[pos]⟩ : Head).offset + 1 = pos + 1)
  rw [hdecoded] at hreads
  obtain ⟨hrun, hle⟩ := hreads
  refine ⟨?_, hle⟩
  rw [step_eq hsize hpos, hopcode]
  dsimp only
  rw [CheckedReader.bind_of_ok rfl, CheckedReader.bind_of_silent hrun, nextState_eq_some,
    CheckedReader.value_some_bind]
  rfl

/-- A step from a cursor inside the stream finds the fault that is next. -/
theorem step_of_fault {opcode : Opcode} (hopcode : Opcode.ofByte? stream[pos] = some opcode)
    {e : Error}
    (hdecoded : Program.decodeInstruction ⟨pos, opcode, immediateBits stream[pos]⟩
      (windowFrom stream (pos + 1)) = .error e) :
    ∃ cursor, step s stream pos = some ⟨.error e, cursor,
      [.instructionFound pos opcode (immediateBits stream[pos])]⟩ := by
  have hreads := reads_instruction hsize hpos
    (rfl : (⟨pos, opcode, immediateBits stream[pos]⟩ : Head).offset + 1 = pos + 1)
  rw [hdecoded] at hreads
  obtain ⟨cursor, hrun⟩ := hreads
  refine ⟨cursor, ?_⟩
  rw [step_eq hsize hpos, hopcode]
  dsimp only
  rw [CheckedReader.bind_of_ok rfl, CheckedReader.bind_of_error hrun]
  rfl

end Step

/-- **The loop does not stop.**  From a cursor in the stream it makes the bindings of the program
that is left, or finds its fault; every step moves the cursor on, so it ends. -/
theorem loop_eq_some {fuel : Nat} (hpos : pos ≤ stream.size) (hfuel : stream.size ≤ pos + fuel)
    (s : State) :
    ∃ cursor, loop fuel s stream pos =
      some ⟨(Program.decodeFrom 0 pos (windowFrom stream pos)).result s, cursor,
        (Program.decodeFrom 0 pos (windowFrom stream pos)).notes⟩ := by
  induction fuel generalizing pos s with
  | zero =>
    have hwindow : windowFrom stream pos = [] := List.eq_nil_of_length_eq_zero (by simp; omega)
    refine ⟨pos, ?_⟩
    rw [loop, if_pos (by omega), hwindow]
    rfl
  | succ fuel ih =>
    by_cases hend : stream.size ≤ pos
    · have hwindow : windowFrom stream pos = [] := List.eq_nil_of_length_eq_zero (by simp; omega)
      refine ⟨pos, ?_⟩
      rw [loop, if_pos hend, hwindow]
      rfl
    · have hlt : pos < stream.size := Nat.lt_of_not_le hend
      rw [loop, if_neg hend, windowFrom_eq_cons hlt, Program.decodeFrom]
      dsimp only
      cases hopcode : Opcode.ofByte? stream[pos] with
      | none =>
        have hstep := step_eq hsize hlt s
        rw [hopcode] at hstep
        exact ⟨pos + 1, CheckedReader.bind_of_error hstep⟩
      | some opcode =>
        dsimp only
        cases hdecoded : Program.decodeInstruction ⟨pos, opcode, immediateBits stream[pos]⟩
            (windowFrom stream (pos + 1)) with
        | error e =>
          obtain ⟨cursor, hstep⟩ := step_of_fault hsize hlt s hopcode hdecoded
          exact ⟨cursor, CheckedReader.bind_of_error hstep⟩
        | ok p =>
          obtain ⟨i, used⟩ := p
          obtain ⟨hstep, hle⟩ := step_of_decoded hsize hlt s hopcode hdecoded
          obtain ⟨cursor, hrest⟩ := ih hle (by omega) (i.next s)
          dsimp only
          rw [CheckedReader.bind_of_ok hstep, decodeFrom_windowFrom hle, result_cons]
          exact ⟨cursor, congrArg (Option.map _)
            (CheckedReader.map_eq_some hrest (i.bindings s ++ ·))⟩

end Loop

/-- **The bindings of a stream are computed without a stop.** -/
theorem interpret_eq_some {stream : ByteArray} (hsize : stream.size < 68 * UInt32.size) :
    interpret stream = some (parse stream.data.toList, notes stream.data.toList) := by
  have hwhole : windowFrom stream 0 = stream.data.toList := windowFrom_eq stream 0
  have hlength : stream.data.toList.length = stream.size := Array.length_toList
  obtain ⟨cursor, hloop⟩ := loop_eq_some hsize (Nat.zero_le _) (Nat.le_add_left _ 0) {}
  rw [hwhole] at hloop
  rw [interpret, hloop, Option.map_some, BindStream.notes, hlength]
  rfl

/-! ## Faults -/

/-- The same cause with its offset counted from `base` bytes earlier. -/
def shift (base : Nat) : Error → Option Error
  | .unknownBindOpcode opcode offset => (sum UInt64.size base offset).map (.unknownBindOpcode opcode)
  | .invalidUnsignedLeb offset => (sum UInt64.size base offset).map .invalidUnsignedLeb
  | .invalidSignedLeb offset => (sum UInt64.size base offset).map .invalidSignedLeb
  | .malformed offset reason => (sum UInt64.size base offset).map (.malformed · reason)
  | e => some e

/-- The offset of a fault that lies in a stream can be counted from the start of the file. -/
theorem shift_eq_some {base n : Nat} {e : Error} (h : e.LiesBetween 0 n)
    (hfits : base + n < UInt64.size) : shift base e = some (e.shift base) := by
  obtain ⟨offset, hoffset, -, hle⟩ := h
  have hsum : sum UInt64.size base offset = some (base + offset) := sum_eq_some (by omega)
  cases e <;> cases hoffset <;> simp only [shift, hsum, Error.shift, Option.map_some]

end MachImage.Checked
