import MachImage.BindStream.Binding
import MachImage.BindStream.Program

/-!
# Running a bind stream

The state of a run is the binding that would be made next.  An instruction
changes the state and makes some bindings; a run puts the bindings of its
instructions together.  A stream with a fault makes none.
-/

namespace MachImage.BindStream

/-- The binding that would be made next. -/
abbrev State := Binding

namespace State

/-- The state moved by a distance, modulo the size of the address space. -/
def advance (s : State) (distance : UInt32) : State := { s with offset := s.offset + distance }

end State

/-- The loop of a repeated bind.  Each time the state is put before the bindings made so far, and
then moved past the bytes to skip and past a pointer. -/
def repeatBind (skip : UInt32) : (count : Nat) → (made : List Binding) → State →
    List Binding × State
  | 0, made, s => (made.reverse, s)
  | count + 1, made, s =>
    repeatBind skip count (s :: made) ((s.advance skip).advance pointerSize)

namespace Instruction

/-- The state after an instruction. -/
def next (i : Instruction) (s : State) : State :=
  match i.operation with
  | .done => s
  | .setOrdinalImmediate | .setOrdinalUnsigned _ | .setOrdinalSpecial =>
    { s with library := i.ordinal?.bind LibraryOrdinal.ofSigned? }
  | .setSymbol name =>
    { s with symbol := name, flags := Flags.ofBits symbolFlags i.immediate.toUInt32 }
  | .setType => { s with type := some (BindType.ofImmediate i.immediate) }
  | .setAddend addend => { s with addend }
  | .setSegmentAndOffset offset => { s with segment := i.immediate, offset := offset.toUInt32 }
  | .addAddress delta => s.advance delta.toUInt32
  | .bind => s.advance pointerSize
  | .bindAddAddress delta => s.advance (delta.toUInt32 + pointerSize)
  | .bindAddScaled => s.advance (pointerSize + i.immediate.toUInt32 * pointerSize)
  | .bindRepeated count skip => (repeatBind skip.toUInt32 count.toNat [] s).2

/-- The bindings that an instruction makes. -/
def bindings (i : Instruction) (s : State) : List Binding :=
  match i.operation with
  | .bind | .bindAddAddress _ | .bindAddScaled => [s]
  | .bindRepeated count skip => (repeatBind skip.toUInt32 count.toNat [] s).1
  | _ => []

end Instruction

namespace Program

/-- The bindings that instructions make from a state on. -/
def run (s : State) : List Instruction → List Binding
  | [] => []
  | i :: is => i.bindings s ++ run (i.next s) is

/-- The state that instructions leave. -/
def finalState (s : State) (is : List Instruction) : State :=
  is.foldl (fun s i => i.next s) s

/-- The bindings of a program run from a state on, or its fault. -/
def result (p : Program) (s : State) : Except Error (List Binding) :=
  match p.fault with
  | some e => .error e
  | none => .ok (run s p.instructions)

end Program

/-- The bindings of a stream, or why there are none. -/
def parse (bs : List UInt8) : Except Error (List Binding) := (Program.decode bs).result {}

/-- The notes made while a stream is read. -/
def notes (bs : List UInt8) : List Note :=
  (Program.decode bs).notes ++
    match parse bs with
    | .ok bindings => [.bindingsRead bindings.length bs.length]
    | .error _ => []

end MachImage.BindStream
