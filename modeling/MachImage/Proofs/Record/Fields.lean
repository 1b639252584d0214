import MachImage.Proofs.Reader
import Mathlib.Algebra.Ring.Nat

/-!
# Records field by field

A record has one form in a file.  What is written of it takes as many bytes as
its kind is said to take (`Record.statedSize`), its numbers lie one behind the
other in the order of the fields, each with its least significant byte first
(`Layout.getElem?_encode`), and reading the whole is reading one field after
another (`Layout.yields_readFields`).

`Record.faithful` puts this together with the two round trips: a record that was
written is read back wherever it lies, and the bytes of a record that was read
are written again.
-/

namespace MachImage

/-! ## Numbers and their bytes -/

namespace LittleEndian

/-- The byte of a number at a place is its digit there. -/
theorem getElem?_digits {w k : Nat} (n : Nat) (h : k < w) :
    (digits w n)[k]? = some (UInt8.ofNat (n / capacity k)) := by
  induction w generalizing n k with
  | zero => omega
  | succ w ih =>
    cases k with
    | zero => simp [digits, capacity]
    | succ k =>
      rw [digits, List.getElem?_cons_succ, ih (n / 256) (by omega), capacity,
        Nat.div_div_eq_div_mul]

/-- The bytes of a number after others count that much more. -/
theorem value_append (as bs : List UInt8) :
    value (as ++ bs) = value as + capacity as.length * value bs := by
  induction as with
  | nil => simp [value, capacity]
  | cons a as ih =>
    simp only [List.cons_append, value, ih, List.length_cons, capacity, Nat.mul_add]
    rw [Nat.add_assoc, Nat.mul_assoc]

/-- A number of 64 bits is two of 32 bits, the lower half first. -/
theorem u64_append {low high : List UInt8} (hlow : low.length = 4) (hhigh : high.length = 4) :
    u64 (low ++ high) = UInt64.ofNat ((u32 low).toNat + UInt32.size * (u32 high).toNat) := by
  have hcap : capacity 4 = UInt32.size := rfl
  have hvalue : ∀ {bs : List UInt8}, bs.length = 4 → (u32 bs).toNat = value bs := by
    intro bs hbs
    have hlt := value_lt bs
    rw [hbs, hcap] at hlt
    rw [u32, List.take_of_length_le (by omega), UInt32.toNat_ofNat_of_lt' hlt]
  rw [u64, List.take_of_length_le (by simp [hlow, hhigh]), value_append, hlow, hcap, hvalue hlow,
    hvalue hhigh]

end LittleEndian

/-- Where the number at a place starts among numbers that lie one behind the other, each given with
the count of its bytes. -/
def offsetOf (numbers : List (Nat × Nat)) (i : Nat) : Nat := ((numbers.take i).map Prod.fst).sum

/-- The byte at a place of a number among others. -/
theorem getElem?_flatMap_digits {numbers : List (Nat × Nat)} {i width n k : Nat}
    (hi : numbers[i]? = some (width, n)) (hk : k < width) :
    (numbers.flatMap fun p => LittleEndian.digits p.1 p.2)[offsetOf numbers i + k]? =
      some (UInt8.ofNat (n / LittleEndian.capacity k)) := by
  induction numbers generalizing i with
  | nil => simp at hi
  | cons p numbers ih =>
    have hlength := LittleEndian.length_digits p.1 p.2
    cases i with
    | zero =>
      obtain rfl : p = (width, n) := by simpa using hi
      have hlt : k < (LittleEndian.digits width n).length := hlength ▸ hk
      simp only [offsetOf, List.take_zero, List.map_nil, List.sum_nil, Nat.zero_add,
        List.flatMap_cons]
      rw [List.getElem?_append_left hlt, LittleEndian.getElem?_digits n hk]
    | succ i =>
      have hstart : offsetOf (p :: numbers) (i + 1) + k = p.1 + (offsetOf numbers i + k) := by
        simp [offsetOf, Nat.add_assoc]
      rw [hstart, List.flatMap_cons, List.getElem?_append_right (by omega), hlength,
        Nat.add_sub_cancel_left]
      exact ih (by simpa using hi)

/-! ## The numbers of a field and of a record -/

namespace FieldType

/-- The numbers that a field holds, each with the count of its bytes. -/
def numbers : (t : FieldType) → t.Value → List (Nat × Nat)
  | u8, v => [(1, v.toNat)]
  | u16, v => [(2, v.toNat)]
  | u32, v => [(4, v.toNat)]
  | u64, v => [(8, v.toNat)]
  | bytes _, v => v.toList.map fun b => (1, b.toNat)
  | words _, v => v.toList.map fun w => (4, w.toNat)

theorem encode_eq (t : FieldType) (v : t.Value) :
    t.encode v = (t.numbers v).flatMap fun p => LittleEndian.digits p.1 p.2 := by
  have hbyte : ∀ b : UInt8, LittleEndian.digits 1 b.toNat = [b] := by
    intro b
    simp [LittleEndian.digits]
  cases t with
  | u8 => simp [encode, numbers, hbyte]
  | bytes n => simp [encode, numbers, List.flatMap_map, hbyte]
  | words n => simp [encode, numbers, List.flatMap_map]
  | _ => simp [encode, numbers]

end FieldType

namespace Layout

/-- The numbers of a record in the order of its fields, each with the count of its bytes. -/
def numbers : (ts : Layout) → ts.Values → List (Nat × Nat)
  | [], _ => []
  | t :: ts, (v, vs) => t.numbers v ++ numbers ts vs

/-- A record as bytes is its numbers, one behind the other. -/
theorem encode_eq (ts : Layout) (v : ts.Values) :
    ts.encode v = (ts.numbers v).flatMap fun p => LittleEndian.digits p.1 p.2 := by
  induction ts with
  | nil => rfl
  | cons t ts ih =>
    obtain ⟨v, vs⟩ := v
    rw [encode, numbers, List.flatMap_append, ih, FieldType.encode_eq]

/-- Where the digits of a number of a record lie. -/
theorem getElem?_encode {ts : Layout} {v : ts.Values} {i width n k : Nat}
    (hi : (ts.numbers v)[i]? = some (width, n)) (hk : k < width) :
    (ts.encode v)[offsetOf (ts.numbers v) i + k]? =
      some (UInt8.ofNat (n / LittleEndian.capacity k)) := by
  rw [encode_eq]
  exact getElem?_flatMap_digits hi hk

/-- There is nothing between the numbers of a record and nothing behind them. -/
theorem sum_numbers (ts : Layout) (v : ts.Values) :
    ((ts.numbers v).map Prod.fst).sum = ts.size := by
  have hlength := ts.length_encode v
  rw [encode_eq, List.length_flatMap] at hlength
  simpa [Function.comp_def] using hlength

end Layout

/-! ## One field after another -/

section Reading

variable {image : ByteArray} {pos cursor : Nat}

theorem Reader.yields_u8 {b : UInt8} :
    Reader.u8.Yields image pos b cursor ↔
      pos + 1 ≤ image.size ∧ b = byteAt image pos ∧ cursor = pos + 1 :=
  Reader.yields_bytes_map

theorem Reader.yields_u16 {w : UInt16} :
    Reader.u16.Yields image pos w cursor ↔
      pos + 2 ≤ image.size ∧ w = halfWord image pos ∧ cursor = pos + 2 :=
  Reader.yields_bytes_map

theorem Reader.yields_u32 {w : UInt32} :
    Reader.u32.Yields image pos w cursor ↔
      pos + 4 ≤ image.size ∧ w = word image pos ∧ cursor = pos + 4 :=
  Reader.yields_bytes_map

/-- The long word at a position is two words. -/
theorem longWord_eq (h : pos + 8 ≤ image.size) :
    longWord image pos =
      UInt64.ofNat ((word image pos).toNat + UInt32.size * (word image (pos + 4)).toNat) := by
  rw [longWord, ← window_append image pos 4 4]
  exact LittleEndian.u64_append (by simp; omega) (by simp; omega)

namespace FieldType

/-- A field read by plain reads of a byte, of 16 and of 32 bits. -/
def read : (t : FieldType) → Reader t.Value
  | u8 => Reader.u8
  | u16 => Reader.u16
  | u32 => Reader.u32
  | u64 => do
    let low ← Reader.u32
    let high ← Reader.u32
    return UInt64.ofNat (low.toNat + UInt32.size * high.toNat)
  | bytes n => do
    let bs ← Reader.times n Reader.u8
    return Vector.ofFn fun i : Fin n => bs.getD i 0
  | words n => do
    let ws ← Reader.times n Reader.u32
    return Vector.ofFn fun i : Fin n => ws.getD i 0

/-- The bytes of a field are the bytes at their positions. -/
theorem readAt_bytes (n : Nat) (image : ByteArray) (pos : Nat) :
    (bytes n).readAt image pos =
      Vector.ofFn fun i : Fin n =>
        ((List.range n).map fun i => byteAt image (pos + 1 * i)).getD i 0 := by
  apply Vector.ext
  intro i hi
  have hbyte : window image (pos + i) 1 = ((window image pos n).drop i).take 1 := by
    rw [drop_window, take_window _ _ (by omega)]
  simp only [readAt, decode, size, Vector.getElem_ofFn, List.getD_eq_getElem?_getD,
    List.getElem?_map, List.getElem?_range hi, Option.map_some, Option.getD_some, Nat.one_mul,
    byteAt, hbyte]
  cases h : (window image pos n)[i]? with
  | none =>
    rw [List.drop_eq_nil_of_le (List.getElem?_eq_none_iff.1 h)]
    rfl
  | some b =>
    obtain ⟨hlt, rfl⟩ := List.getElem?_eq_some_iff.1 h
    rw [List.drop_eq_getElem_cons hlt]
    rfl

/-- The words of a field are the words at their positions. -/
theorem readAt_words (n : Nat) (image : ByteArray) (pos : Nat) :
    (words n).readAt image pos =
      Vector.ofFn fun i : Fin n =>
        ((List.range n).map fun i => word image (pos + 4 * i)).getD i 0 := by
  apply Vector.ext
  intro i hi
  have hword : window image (pos + 4 * i) 4 = ((window image pos (4 * n)).drop (4 * i)).take 4 := by
    rw [drop_window, take_window _ _ (by omega)]
  simp [readAt, decode, size, word, hword, LittleEndian.u32, List.take_take]

/-- A field is read by plain reads as it is read at once. -/
theorem yields_read {t : FieldType} {v : t.Value} (hpos : pos ≤ image.size) :
    t.read.Yields image pos v cursor ↔
      pos + t.size ≤ image.size ∧ v = t.readAt image pos ∧ cursor = pos + t.size := by
  cases t with
  | u8 => exact Reader.yields_u8
  | u16 => exact Reader.yields_u16
  | u32 => exact Reader.yields_u32
  | u64 =>
    refine (Reader.yields_bind_of_iff Reader.yields_u32).trans ?_
    rw [Reader.yields_bind_of_iff Reader.yields_u32, Reader.yields_pure]
    show _ ↔ pos + 8 ≤ image.size ∧ v = longWord image pos ∧ cursor = pos + 8
    constructor
    · rintro ⟨-, hle, hv, hcursor⟩
      exact ⟨by omega, by rw [hv, longWord_eq (by omega)], by omega⟩
    · rintro ⟨hle, hv, hcursor⟩
      exact ⟨by omega, by omega, by rw [hv, longWord_eq hle], by omega⟩
  | bytes n =>
    refine (Reader.yields_bind_of_iff fun {_ _} =>
      Reader.yields_times Reader.yields_u8 hpos).trans ?_
    rw [Reader.yields_pure, readAt_bytes, size, Nat.one_mul]
  | words n =>
    refine (Reader.yields_bind_of_iff fun {_ _} =>
      Reader.yields_times Reader.yields_u32 hpos).trans ?_
    rw [Reader.yields_pure, readAt_words, size]

end FieldType

namespace Layout

/-- The fields of a record, read one after another by plain reads. -/
def readFields : (ts : Layout) → Reader ts.Values
  | [] => pure ()
  | t :: ts => do
    let v ← t.read
    let vs ← readFields ts
    return (v, vs)

/-- The fields read one after another are those at their own places. -/
theorem yields_readFields {ts : Layout} {v : ts.Values} (hpos : pos ≤ image.size) :
    ts.readFields.Yields image pos v cursor ↔
      pos + ts.size ≤ image.size ∧ v = ts.readAt image pos ∧ cursor = pos + ts.size := by
  induction ts generalizing pos cursor with
  | nil =>
    rw [readFields, Reader.yields_pure, size, readAt, Nat.add_zero]
    simp [hpos]
  | cons t ts ih =>
    rw [readFields, Reader.yields_bind_of_iff fun {_ _} => FieldType.yields_read hpos, size, readAt,
      ← Nat.add_assoc]
    constructor
    · rintro ⟨hle, h⟩
      rw [Reader.yields_bind_of_iff fun {_ _} => ih hle, Reader.yields_pure] at h
      exact h
    · rintro ⟨hle, h⟩
      have hfirst : pos + t.size ≤ image.size := by omega
      refine ⟨hfirst, ?_⟩
      rw [Reader.yields_bind_of_iff fun {_ _} => ih hfirst, Reader.yields_pure]
      exact ⟨hle, h⟩

end Layout

end Reading

/-! ## The kinds of record -/

namespace Record

/-- The count of bytes that a record of each kind is said to take. -/
def statedSize : Record → Nat
  | header => 28
  | commandHeader => 8
  | segment => 56
  | sectionHeader => 68
  | symtab => 24
  | dysymtab => 80
  | symbol => 12
  | dyldInfo => 48
  | linkeditData => 16
  | dylib => 24
  | path => 12
  | uuid => 24
  | thread => 16
  | armThreadState => 68
  | encryptionInfo => 20
  | versionMin => 16
  | buildVersion => 24
  | buildTool => 8
  | entryPoint => 24
  | sourceVersion => 16

theorem size_eq_statedSize (r : Record) : r.size = r.statedSize := by
  cases r <;> rfl

/-- Records of a kind have one form in a file. -/
structure Faithful (r : Record) : Prop where
  /-- As many bytes are written as the kind is said to take. -/
  length_encode : ∀ v, (r.encode v).length = r.statedSize
  /-- What was written is read back, whatever lies before it and behind it. -/
  read_encode : ∀ v (before after : List UInt8),
    (Reader.record r).Yields ⟨(before ++ r.encode v ++ after).toArray⟩ before.length v
      (before.length + r.statedSize)
  /-- What is read, written again, is the bytes that were there. -/
  encode_read : ∀ image pos, pos + r.statedSize ≤ image.size →
    ∃ v, (Reader.record r).Yields image pos v (pos + r.statedSize) ∧
      r.encode v = window image pos r.statedSize
  /-- The numbers of the fields follow one another, least significant byte first. -/
  digits : ∀ v i width n, (r.layout.numbers v)[i]? = some (width, n) → ∀ k < width,
    (r.encode v)[offsetOf (r.layout.numbers v) i + k]? =
      some (UInt8.ofNat (n / LittleEndian.capacity k))
  /-- They fill the record. -/
  sum_numbers : ∀ v, ((r.layout.numbers v).map Prod.fst).sum = r.statedSize
  /-- Reading the record is reading its fields one after another. -/
  read_fields : ∀ image pos v cursor, pos ≤ image.size →
    ((Reader.record r).Yields image pos v cursor ↔
      r.layout.readFields.Yields image pos v cursor)

/-- A record that lies somewhere is read from there. -/
theorem yields_of_window {r : Record} {image : ByteArray} {pos : Nat} {v : r.Values}
    (hle : pos + r.size ≤ image.size) (h : window image pos r.size = r.encode v) :
    (Reader.record r).Yields image pos v (pos + r.size) := by
  have hdecode := r.layout.decode_encode v []
  rw [List.append_nil] at hdecode
  rw [Reader.yields_record, ← decode_window, h]
  exact ⟨hle, hdecode.symm, rfl⟩

/-- A record that is written between other bytes is read back from there. -/
theorem yields_encode (r : Record) (v : r.Values) (before after : List UInt8) :
    (Reader.record r).Yields ⟨(before ++ r.encode v ++ after).toArray⟩ before.length v
      (before.length + r.size) := by
  have hlength : (r.encode v).length = r.size := r.layout.length_encode v
  apply yields_of_window
  · show _ ≤ (before ++ r.encode v ++ after).toArray.size
    simp [hlength]
  · rw [window_eq]
    simp [List.append_assoc, ← hlength]

/-- **Records round-trip.**  For every kind of record, what is written is read back and what is read
is written again, and the form is that of the fields one after another. -/
theorem faithful (r : Record) : r.Faithful := by
  have hsize := r.size_eq_statedSize
  have hlength : ∀ v, (r.encode v).length = r.size := fun v => r.layout.length_encode v
  constructor
  · intro v
    rw [hlength, hsize]
  · intro v before after
    rw [← hsize]
    exact r.yields_encode v before after
  · intro image pos hle
    rw [← hsize] at hle ⊢
    exact ⟨_, Reader.yields_record.2 ⟨hle, rfl, rfl⟩, encode_readAt r hle⟩
  · intro v i width n hi k hk
    exact Layout.getElem?_encode hi hk
  · intro v
    rw [← hsize]
    exact Layout.sum_numbers r.layout v
  · intro image pos v cursor hpos
    rw [Reader.yields_record, Layout.yields_readFields hpos]
    rfl

/-- An entry of a symbol table between other bytes: the description is the bytes 6 and 7. -/
theorem symbol_faithful :
    (Reader.record .symbol).Yields ⟨#[0xFF, 7, 0, 0, 0, 0x0F, 1, 0x34, 0x12, 0, 16, 0, 0, 0xFF]⟩ 1
        (7, 0x0F, 1, 0x1234, 0x1000, ()) 13 ∧
      (symbol.encode (7, 0x0F, 1, 0x1234, 0x1000, ()))[7]? = some 0x12 ∧
      symbol.layout.readFields.Yields
        ⟨#[0xFF, 7, 0, 0, 0, 0x0F, 1, 0x34, 0x12, 0, 16, 0, 0, 0xFF]⟩ 1
        (7, 0x0F, 1, 0x1234, 0x1000, ()) 13 := by
  have hread := (faithful symbol).read_encode (7, 0x0F, 1, 0x1234, 0x1000, ()) [0xFF] [0xFF]
  have hdigit := (faithful symbol).digits (7, 0x0F, 1, 0x1234, 0x1000, ()) 3 2 0x1234 rfl 1
    (by decide)
  exact ⟨hread, hdigit, ((faithful symbol).read_fields _ 1 _ _ (by decide)).1 hread⟩

end Record

end MachImage
