import MachImage.Record
import Mathlib.Tactic.Common

/-!
# Records by position

The fields of a record lie one after another.  `Layout.readAt` reads each field
of a layout at its own position in the image; `Record.decode_window` says that
a record read as a whole has those fields, and `Record.encode_readAt` that they
written back are the bytes of the record.
-/

namespace MachImage

/-! ## Fields -/

namespace FieldType

/-- The field at a position of an image. -/
def readAt (t : FieldType) (image : ByteArray) (pos : Nat) : t.Value :=
  t.decode (window image pos t.size)

/-- A field does not depend on what follows it. -/
theorem decode_take (t : FieldType) (bs : List UInt8) :
    t.decode (bs.take t.size) = t.decode bs := by
  cases t with
  | u8 => cases bs <;> rfl
  | u16 => rw [decode, decode, size, LittleEndian.u16, LittleEndian.u16, List.take_take]; rfl
  | u32 => rw [decode, decode, size, LittleEndian.u32, LittleEndian.u32, List.take_take]; rfl
  | u64 => rw [decode, decode, size, LittleEndian.u64, LittleEndian.u64, List.take_take]; rfl
  | bytes n =>
    apply Vector.ext
    intro i hi
    simp only [decode, size, Vector.getElem_ofFn, List.getD_eq_getElem?_getD, List.getElem?_take,
      if_pos hi]
  | words n =>
    apply Vector.ext
    intro i hi
    have hmin : min 4 (4 * n - 4 * i) = 4 := by omega
    simp only [decode, size, Vector.getElem_ofFn, LittleEndian.u32, List.drop_take, List.take_take,
      hmin]

end FieldType

/-! ## Layouts -/

theorem take_window (image : ByteArray) (pos : Nat) {m n : Nat} (h : m ≤ n) :
    (window image pos n).take m = window image pos m := by
  rw [window_eq, window_eq, List.take_take, Nat.min_eq_left h]

theorem drop_window (image : ByteArray) (pos m n : Nat) :
    (window image pos n).drop m = window image (pos + m) (n - m) := by
  rw [window_eq, window_eq, List.drop_take, List.drop_drop]

/-- Two windows, one after the other, are one. -/
theorem window_append (image : ByteArray) (pos m n : Nat) :
    window image pos m ++ window image (pos + m) n = window image pos (m + n) := by
  rw [← take_window image pos (Nat.le_add_right m n),
    show window image (pos + m) n = (window image pos (m + n)).drop m by
      rw [drop_window, Nat.add_sub_cancel_left],
    List.take_append_drop]

namespace Layout

/-- The fields of a record at a position of an image, each at its own place. -/
def readAt : (ts : Layout) → (image : ByteArray) → (pos : Nat) → ts.Values
  | [], _, _ => ()
  | t :: ts, image, pos => (t.readAt image pos, readAt ts image (pos + t.size))

theorem decode_window (ts : Layout) (image : ByteArray) (pos : Nat) {n : Nat} (h : ts.size ≤ n) :
    ts.decode (window image pos n) = ts.readAt image pos := by
  induction ts generalizing pos n with
  | nil => rfl
  | cons t ts ih =>
    rw [size] at h
    have hfield : t.decode (window image pos n) = t.readAt image pos := by
      rw [FieldType.readAt, ← take_window image pos (show t.size ≤ n by omega),
        FieldType.decode_take]
    rw [decode, readAt, hfield, drop_window, ih (pos + t.size) (by omega)]

end Layout

namespace Record

/-- A record read as a whole has the fields that lie at their places. -/
theorem decode_window (r : Record) (image : ByteArray) (pos : Nat) :
    r.decode (window image pos r.size) = r.layout.readAt image pos :=
  Layout.decode_window r.layout image pos (Nat.le_refl _)

/-- The fields of a record inside the image, written back, are its bytes. -/
theorem encode_readAt (r : Record) {image : ByteArray} {pos : Nat}
    (h : pos + r.size ≤ image.size) :
    r.encode (r.layout.readAt image pos) = window image pos r.size := by
  have hlength : (window image pos r.size).length = r.size := by rw [length_window]; omega
  rw [← decode_window, Record.encode, Record.decode,
    Layout.encode_decode r.layout _ (Nat.le_of_eq hlength.symm), List.take_of_length_le]
  exact Nat.le_of_eq hlength

end Record

/-! ## Numbers and bytes at a position -/

/-- The 32-bit number at a position. -/
def word (image : ByteArray) (pos : Nat) : UInt32 := LittleEndian.u32 (window image pos 4)

/-- The 64-bit number at a position. -/
def longWord (image : ByteArray) (pos : Nat) : UInt64 := LittleEndian.u64 (window image pos 8)

/-- The 16-bit number at a position. -/
def halfWord (image : ByteArray) (pos : Nat) : UInt16 := LittleEndian.u16 (window image pos 2)

/-- The byte at a position. -/
def byteAt (image : ByteArray) (pos : Nat) : UInt8 := (window image pos 1).headD 0

@[simp] theorem FieldType.readAt_u32 (image : ByteArray) (pos : Nat) :
    u32.readAt image pos = word image pos := rfl

end MachImage
