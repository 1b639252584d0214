import MachImage.Bytes.LittleEndian
import MachImage.Bytes.Window
import MachImage.Error
import MachImage.Leb128
import MachImage.Note
import MachImage.Text.Name

/-!
# Reading through a cursor

A `Reader` takes an image and a cursor and has an `Outcome`: a value or the
cause of a failure, the cursor afterwards, and the notes made on the way.
The cursor is part of the outcome of a failure too.  Readers form a lawful
monad: the second of two readers starts at the cursor of the first, and a
failure ends the whole.

The reads of a single thing leave the cursor alone when they fail and move it
over exactly the bytes they used when they succeed.  `within` runs a reader
elsewhere and comes back; `times` repeats one.
-/

namespace MachImage

/-- What a reader leaves. -/
structure Outcome (α : Type) where
  result : Except Error α
  /-- The cursor afterwards. -/
  cursor : Nat
  /-- The notes made, in order. -/
  notes : List Note

/-- A computation that reads an image from a cursor on. -/
def Reader (α : Type) : Type := ByteArray → Nat → Outcome α

/-- The greatest position that can be written down in 64 bits. -/
def lastPosition : Nat := UInt64.size - 1

namespace Reader

variable {α β γ : Type}

/-- Nothing is read. -/
def pure (a : α) : Reader α := fun _ pos => ⟨.ok a, pos, []⟩

/-- One reader, then another that depends on the value of the first. -/
def bind (r : Reader α) (f : α → Reader β) : Reader β := fun image pos =>
  match r image pos with
  | ⟨.error e, cursor, notes⟩ => ⟨.error e, cursor, notes⟩
  | ⟨.ok a, cursor, notes⟩ =>
    let next := f a image cursor
    ⟨next.result, next.cursor, notes ++ next.notes⟩

instance : Monad Reader where
  pure := pure
  bind := bind

instance : LawfulMonad Reader := LawfulMonad.mk' Reader
  (by
    intro α r
    funext image pos
    simp only [Functor.map, bind, pure, Function.comp]
    rcases r image pos with ⟨_ | _, _, _⟩ <;> simp)
  (by
    intro α β a f
    funext image pos
    simp [Bind.bind, Pure.pure, bind, pure])
  (by
    intro α β γ r f g
    funext image pos
    simp only [Bind.bind, bind]
    rcases r image pos with ⟨_ | a, cursor, notes⟩
    · rfl
    · simp only
      rcases f a image cursor with ⟨_ | b, cursor', notes'⟩ <;> simp)

/-- What follows a reader that succeeds starts at its cursor and adds to its notes. -/
theorem bind_of_ok {r : Reader α} {f : α → Reader β} {image : ByteArray} {pos cursor : Nat} {a : α}
    {notes : List Note} (h : r image pos = ⟨.ok a, cursor, notes⟩) :
    (r >>= f) image pos =
      { f a image cursor with notes := notes ++ (f a image cursor).notes } := by
  simp [Bind.bind, bind, h]

/-- Nothing follows a reader that fails. -/
theorem bind_of_error {r : Reader α} {f : α → Reader β} {image : ByteArray} {pos cursor : Nat}
    {e : Error} {notes : List Note} (h : r image pos = ⟨.error e, cursor, notes⟩) :
    (r >>= f) image pos = ⟨.error e, cursor, notes⟩ := by
  simp [Bind.bind, bind, h]

@[simp] theorem pure_apply (a : α) (image : ByteArray) (pos : Nat) :
    (Pure.pure a : Reader α) image pos = ⟨.ok a, pos, []⟩ := rfl

/-! ## Control -/

/-- Ends the reading. -/
def fail (e : Error) : Reader α := fun _ pos => ⟨.error e, pos, []⟩

/-- Makes a note. -/
def note (n : Note) : Reader Unit := fun _ pos => ⟨.ok (), pos, [n]⟩

/-- The cursor. -/
def position : Reader Nat := fun _ pos => ⟨.ok pos, pos, []⟩

/-- A value that was computed apart from the image, with the notes made there. -/
def report (result : Except Error α) (notes : List Note) : Reader α := fun _ pos =>
  ⟨result, pos, notes⟩

/-- Fails with `e` unless there is a value. -/
def demand (a : Option α) (e : Error) : Reader α :=
  match a with
  | some a => pure a
  | none => fail e

/-- Runs a reader and puts the cursor back, whether the reader failed or not. -/
def within (r : Reader α) : Reader α := fun image pos => { r image pos with cursor := pos }

/-- Runs a reader `n` times and collects the values; the first failure ends the whole. -/
def times : (n : Nat) → Reader α → Reader (List α)
  | 0, _ => pure []
  | n + 1, r => bind r fun a => bind (times n r) fun rest => pure (a :: rest)

/-- Runs a reader `n` times, each time from the cursor that the last time left, whether it failed or
not; gives each result with the cursor after it. -/
def attempts : (n : Nat) → Reader α → ByteArray → Nat → List (Except Error α × Nat)
  | 0, _, _, _ => []
  | n + 1, r, image, pos =>
    let outcome := r image pos
    (outcome.result, outcome.cursor) :: attempts n r image outcome.cursor

/-! ## Reads -/

/-- Moves the cursor to a position up to the end of the image. -/
def seek (target : Nat) : Reader Unit := fun image pos =>
  if image.size < target then ⟨.error (.bufferTooSmall target image.size), pos, []⟩
  else ⟨.ok (), target, []⟩

/-- A view of the next `n` bytes.  A position that 64 bits cannot hold is reported as the last
one. -/
def take (n : Nat) (view : ByteArray → Nat → α) : Reader α := fun image pos =>
  if image.size < pos + n then
    ⟨.error (.bufferTooSmall (min (pos + n) lastPosition) image.size), pos, []⟩
  else ⟨.ok (view image pos), pos + n, []⟩

/-- The next `n` bytes. -/
def bytes (n : Nat) : Reader (List UInt8) := take n fun image pos => window image pos n

/-- The next `n` bytes as an array of their own. -/
def slice (n : Nat) : Reader ByteArray := take n fun image pos => image.extract pos (pos + n)

/-- The next `n` bytes; the cursor stays. -/
def peek (n : Nat) : Reader (List UInt8) := within (bytes n)

/-- Passes over `n` bytes. -/
def skip (n : Nat) : Reader Unit := do
  let _ ← bytes n

/-- A byte. -/
def u8 : Reader UInt8 := do
  return (← bytes 1).headD 0

/-- A 16-bit number. -/
def u16 : Reader UInt16 := do
  return LittleEndian.u16 (← bytes 2)

/-- A 32-bit number. -/
def u32 : Reader UInt32 := do
  return LittleEndian.u32 (← bytes 4)

/-- Consecutive 32-bit numbers, all or none of them. -/
def words (n : Nat) : Reader (List UInt32) := do
  return LittleEndian.words (← bytes (4 * n))

/-- A name in a field of `n` bytes. -/
def fixedName (n : Nat) : Reader String := do
  return Name.ofField (← bytes n)

/-- What `f` finds at the front of the bytes from the cursor on, with the count of bytes it used;
failing with `e` of the cursor if it finds nothing. -/
def scan (f : List UInt8 → Option (α × Nat)) (e : Nat → Error) : Reader α := fun image pos =>
  match f (windowFrom image pos) with
  | some (a, used) => ⟨.ok a, pos + used, []⟩
  | none => ⟨.error (e pos), pos, []⟩

/-- A name ended by a zero byte. -/
def terminatedName : Reader String := scan Name.terminated? (.malformed · .unterminatedName)

/-- An unsigned LEB128 number. -/
def unsignedLeb : Reader UInt64 := scan Leb128.unsigned? .invalidUnsignedLeb

/-- A signed LEB128 number. -/
def signedLeb : Reader Int64 := scan Leb128.signed? .invalidSignedLeb

end Reader

end MachImage
