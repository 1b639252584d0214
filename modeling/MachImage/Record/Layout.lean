import MachImage.Bytes.LittleEndian

/-!
# Records of fixed layout

A layout is a list of field types; its values are the tuples of values of its
fields.  Fields are stored one after another without padding, numbers least
significant byte first.  `Layout.decode` and `Layout.encode` undo each other
(`decode_encode`, `encode_decode`), and an encoding has the size the layout
declares (`length_encode`).
-/

namespace MachImage

/-- The type of a field of a record. -/
inductive FieldType where
  | u8 | u16 | u32 | u64
  /-- A fixed count of bytes. -/
  | bytes (n : Nat)
  /-- A fixed count of 32-bit numbers. -/
  | words (n : Nat)
  deriving DecidableEq, Repr

namespace FieldType

/-- The values of a field. -/
@[reducible] def Value : FieldType → Type
  | u8 => UInt8
  | u16 => UInt16
  | u32 => UInt32
  | u64 => UInt64
  | bytes n => Vector UInt8 n
  | words n => Vector UInt32 n

/-- The count of bytes a field takes. -/
def size : FieldType → Nat
  | u8 => 1
  | u16 => 2
  | u32 => 4
  | u64 => 8
  | bytes n => n
  | words n => 4 * n

/-- A field as bytes. -/
def encode : (t : FieldType) → t.Value → List UInt8
  | u8, v => [v]
  | u16, v => LittleEndian.digits 2 v.toNat
  | u32, v => LittleEndian.digits 4 v.toNat
  | u64, v => LittleEndian.digits 8 v.toNat
  | bytes _, v => v.toList
  | words _, v => v.toList.flatMap fun w => LittleEndian.digits 4 w.toNat

/-- The field at the front of a list of bytes; missing bytes count as zero. -/
def decode : (t : FieldType) → List UInt8 → t.Value
  | u8, bs => bs.headD 0
  | u16, bs => LittleEndian.u16 bs
  | u32, bs => LittleEndian.u32 bs
  | u64, bs => LittleEndian.u64 bs
  | bytes n, bs => Vector.ofFn fun i : Fin n => bs.getD i 0
  | words n, bs => Vector.ofFn fun i : Fin n => LittleEndian.u32 (bs.drop (4 * i))

end FieldType

/-- The types of the fields of a record, in the order in which they are stored. -/
abbrev Layout := List FieldType

namespace Layout

/-- The values of a record: one for each field. -/
@[reducible] def Values : Layout → Type
  | [] => Unit
  | t :: ts => t.Value × Values ts

/-- The count of bytes a record takes. -/
def size : Layout → Nat
  | [] => 0
  | t :: ts => t.size + size ts

/-- A record as bytes. -/
def encode : (ts : Layout) → ts.Values → List UInt8
  | [], _ => []
  | t :: ts, (v, vs) => t.encode v ++ encode ts vs

/-- The record at the front of a list of bytes. -/
def decode : (ts : Layout) → List UInt8 → ts.Values
  | [], _ => ()
  | t :: ts, bs => (t.decode bs, decode ts (bs.drop t.size))

end Layout

/-! ## Fields -/

namespace FieldType

theorem length_flatMap_digits (ws : List UInt32) :
    (ws.flatMap fun w => LittleEndian.digits 4 w.toNat).length = 4 * ws.length := by
  induction ws with
  | nil => rfl
  | cons w ws ih => simp [ih]; omega

@[simp] theorem length_encode (t : FieldType) (v : t.Value) : (t.encode v).length = t.size := by
  cases t with
  | words n => simp only [encode, size, length_flatMap_digits, Vector.length_toList]
  | _ => simp [encode, size]

/-- The group of four bytes at place `i` is the number at place `i`. -/
theorem u32_drop_flatMap_digits (ws : List UInt32) (rest : List UInt8) (i : Nat)
    (h : i < ws.length) :
    LittleEndian.u32 (((ws.flatMap fun w => LittleEndian.digits 4 w.toNat) ++ rest).drop (4 * i))
      = ws[i] := by
  induction ws generalizing i with
  | nil => simp at h
  | cons w ws ih =>
    cases i with
    | zero => simp [List.append_assoc]
    | succ i =>
      have hlen : (LittleEndian.digits 4 w.toNat).length = 4 := LittleEndian.length_digits _ _
      have hdrop : 4 * (i + 1) = (LittleEndian.digits 4 w.toNat).length + 4 * i := by omega
      simp only [List.flatMap_cons, List.append_assoc, hdrop, List.drop_length_add_append]
      simpa using ih i (by simpa using h)

theorem decode_encode (t : FieldType) (v : t.Value) (rest : List UInt8) :
    t.decode (t.encode v ++ rest) = v := by
  cases t with
  | u8 => rfl
  | u16 => exact LittleEndian.u16_digits v rest
  | u32 => exact LittleEndian.u32_digits v rest
  | u64 => exact LittleEndian.u64_digits v rest
  | bytes n =>
    apply Vector.ext
    intro i hi
    simp [decode, encode, List.getD_eq_getElem?_getD, List.getElem?_append_left]
  | words n =>
    apply Vector.ext
    intro i hi
    simp only [decode, encode, Vector.getElem_ofFn]
    rw [u32_drop_flatMap_digits _ _ _ (by simpa using hi)]
    simp

/-- The numbers in consecutive groups of four bytes, written back, are those bytes. -/
theorem flatMap_digits_ofFn (n : Nat) (bs : List UInt8) (h : 4 * n ≤ bs.length) :
    ((List.ofFn fun i : Fin n => LittleEndian.u32 (bs.drop (4 * i))).flatMap
      fun w => LittleEndian.digits 4 w.toNat) = bs.take (4 * n) := by
  induction n generalizing bs with
  | zero => simp
  | succ n ih =>
    have hfour : (bs.take 4).length = 4 := by simp; omega
    have hhead : LittleEndian.digits 4 (LittleEndian.u32 bs).toNat = bs.take 4 := by
      have := LittleEndian.digits_u32 hfour
      rwa [LittleEndian.u32, List.take_take, Nat.min_self] at this
    have htail := ih (bs.drop 4) (by simp; omega)
    simp only [List.drop_drop] at htail
    rw [List.ofFn_succ, List.flatMap_cons]
    simp only [Fin.val_zero, Nat.mul_zero, List.drop_zero, Fin.val_succ, hhead]
    have hmul : ∀ i : Fin n, 4 * (i.val + 1) = 4 + 4 * i.val := fun i => by omega
    simp only [hmul, htail]
    rw [show 4 * (n + 1) = 4 + 4 * n by omega, List.take_add]

theorem encode_decode (t : FieldType) (bs : List UInt8) (h : t.size ≤ bs.length) :
    t.encode (t.decode bs) = bs.take t.size := by
  cases t with
  | u8 =>
    cases bs with
    | nil => simp [size] at h
    | cons b bs => simp [encode, decode, size]
  | u16 =>
    have hlen : (bs.take 2).length = 2 := by simp [size] at h ⊢; omega
    have := LittleEndian.digits_u16 hlen
    rwa [LittleEndian.u16, List.take_take, Nat.min_self] at this
  | u32 =>
    have hlen : (bs.take 4).length = 4 := by simp [size] at h ⊢; omega
    have := LittleEndian.digits_u32 hlen
    rwa [LittleEndian.u32, List.take_take, Nat.min_self] at this
  | u64 =>
    have hlen : (bs.take 8).length = 8 := by simp [size] at h ⊢; omega
    have := LittleEndian.digits_u64 hlen
    rwa [LittleEndian.u64, List.take_take, Nat.min_self] at this
  | bytes n =>
    simp only [size] at h
    apply List.ext_getElem
    · simp [encode, decode, size]; omega
    · intro i h₁ h₂
      have hi : i < bs.length := by simp at h₂; omega
      simp [encode, decode, List.getD_eq_getElem?_getD, hi, size]
  | words n =>
    simp only [size] at h
    simp only [encode, decode, Vector.toList_ofFn, size]
    exact flatMap_digits_ofFn n bs h

end FieldType

/-! ## Records -/

namespace Layout

@[simp] theorem length_encode (ts : Layout) (v : ts.Values) : (ts.encode v).length = ts.size := by
  induction ts with
  | nil => rfl
  | cons t ts ih => simp [encode, size, ih]

/-- Reading what was written gives the record back, whatever follows it. -/
theorem decode_encode (ts : Layout) (v : ts.Values) (rest : List UInt8) :
    ts.decode (ts.encode v ++ rest) = v := by
  induction ts with
  | nil => rfl
  | cons t ts ih =>
    obtain ⟨v, vs⟩ := v
    have hlen : (t.encode v).length = t.size := FieldType.length_encode t v
    simp only [encode, decode, List.append_assoc, FieldType.decode_encode,
      List.drop_left' hlen, ih]

/-- Writing what was read gives the bytes back. -/
theorem encode_decode (ts : Layout) (bs : List UInt8) (h : ts.size ≤ bs.length) :
    ts.encode (ts.decode bs) = bs.take ts.size := by
  induction ts generalizing bs with
  | nil => simp [encode, size]
  | cons t ts ih =>
    simp only [size] at h
    simp only [encode, decode, size, FieldType.encode_decode t bs (by omega),
      ih (bs.drop t.size) (by simp; omega), List.take_add]

end Layout

end MachImage
