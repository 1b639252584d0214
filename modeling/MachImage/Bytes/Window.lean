/-!
# Windows of an image

Everything read from an image is read through a *window*: the bytes from a
position on, up to a length, cut at the end of the image.  `window_eq` says
this as a slice of the list of all bytes.
-/

namespace MachImage

/-- The bytes of an image from `pos` on, `len` of them or as many as there are. -/
def window (image : ByteArray) (pos len : Nat) : List UInt8 :=
  (image.extract pos (pos + len)).data.toList

/-- The bytes of an image from `pos` to its end. -/
def windowFrom (image : ByteArray) (pos : Nat) : List UInt8 :=
  window image pos (image.size - pos)

/-- A window is a slice of the list of all bytes. -/
theorem window_eq (image : ByteArray) (pos len : Nat) :
    window image pos len = (image.data.toList.drop pos).take len := by
  simp [window, ByteArray.data_extract, List.extract_eq_take_drop]

theorem windowFrom_eq (image : ByteArray) (pos : Nat) :
    windowFrom image pos = image.data.toList.drop pos := by
  rw [windowFrom, window_eq, List.take_of_length_le]
  simp

@[simp] theorem length_window (image : ByteArray) (pos len : Nat) :
    (window image pos len).length = min len (image.size - pos) := by
  simp [window_eq]

@[simp] theorem length_windowFrom (image : ByteArray) (pos : Nat) :
    (windowFrom image pos).length = image.size - pos := by
  simp [windowFrom]

/-- The bytes from `pos` on that come before the first zero byte, among at most `len`. -/
def bytesUntilZero (image : ByteArray) (pos : Nat) : (len : Nat) → List UInt8
  | 0 => []
  | len + 1 =>
    if h : pos < image.size then
      if image[pos] = 0 then [] else image[pos] :: bytesUntilZero image (pos + 1) len
    else []

/-- Stopping at the first zero byte reads the same as cutting the window there. -/
theorem bytesUntilZero_eq (image : ByteArray) (pos len : Nat) :
    bytesUntilZero image pos len = (window image pos len).takeWhile (· ≠ 0) := by
  rw [window_eq]
  induction len generalizing pos with
  | zero => simp [bytesUntilZero]
  | succ len ih =>
    rw [bytesUntilZero]
    split
    · rename_i h
      have hlt : pos < image.data.toList.length := by simpa using h
      rw [List.drop_eq_getElem_cons hlt, ih]
      by_cases hz : image[pos] = 0 <;>
        simp_all [ByteArray.getElem_eq_getElem_data]
    · rename_i h
      have hle : image.data.toList.length ≤ pos := by simpa using h
      simp [List.drop_eq_nil_of_le hle]

end MachImage
