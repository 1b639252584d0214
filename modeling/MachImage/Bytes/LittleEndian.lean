/-!
# Little-endian numbers

Numbers of an image are stored least significant byte first.  `value` reads a
list of bytes as a number, `digits` writes a number with a given count of
bytes, and the two undo each other up to the width (`value_digits`,
`digits_value`).  The fixed widths 2, 4 and 8 follow.
-/

namespace MachImage.LittleEndian

/-- The number whose base-256 digits, least significant first, are the given bytes. -/
def value : List UInt8 → Nat
  | [] => 0
  | b :: bs => b.toNat + 256 * value bs

/-- The lowest `width` base-256 digits of a number, least significant first. -/
def digits : (width n : Nat) → List UInt8
  | 0, _ => []
  | w + 1, n => UInt8.ofNat n :: digits w (n / 256)

/-- How many numbers can be written in `width` bytes. -/
def capacity : (width : Nat) → Nat
  | 0 => 1
  | w + 1 => 256 * capacity w

@[simp] theorem length_digits (w n : Nat) : (digits w n).length = w := by
  induction w generalizing n with
  | zero => rfl
  | succ w ih => simp [digits, ih]

theorem value_lt (bs : List UInt8) : value bs < capacity bs.length := by
  induction bs with
  | nil => simp [value, capacity]
  | cons b bs ih =>
    have hb := b.toNat_lt
    simp only [value, List.length_cons, capacity]
    omega

/-- Reading what was written gives the number back, reduced to the width. -/
theorem value_digits (w n : Nat) : value (digits w n) = n % capacity w := by
  induction w generalizing n with
  | zero => simp [digits, value, capacity, Nat.mod_one]
  | succ w ih =>
    simp only [digits, value, ih, UInt8.toNat_ofNat', capacity]
    rw [Nat.mod_mul]

/-- Writing what was read gives the bytes back. -/
theorem digits_value (bs : List UInt8) : digits bs.length (value bs) = bs := by
  induction bs with
  | nil => rfl
  | cons b bs ih =>
    have hb := b.toNat_lt
    have hdiv : (b.toNat + 256 * value bs) / 256 = value bs := by omega
    have hmod : UInt8.ofNat (b.toNat + 256 * value bs) = b := by
      apply UInt8.toNat_inj.1
      rw [UInt8.toNat_ofNat']
      omega
    simp [digits, value, hdiv, hmod, ih]

/-! ## Fixed widths -/

/-- The 16-bit number in the first two bytes. -/
def u16 (bs : List UInt8) : UInt16 := UInt16.ofNat (value (bs.take 2))

/-- The 32-bit number in the first four bytes. -/
def u32 (bs : List UInt8) : UInt32 := UInt32.ofNat (value (bs.take 4))

/-- The 64-bit number in the first eight bytes. -/
def u64 (bs : List UInt8) : UInt64 := UInt64.ofNat (value (bs.take 8))

/-- The 16-bit number in the first two bytes, if there are two. -/
def u16? (bs : List UInt8) : Option UInt16 :=
  if 2 ≤ bs.length then some (u16 bs) else none

/-- The 32-bit number in the first four bytes, if there are four. -/
def u32? (bs : List UInt8) : Option UInt32 :=
  if 4 ≤ bs.length then some (u32 bs) else none

/-- The 32-bit numbers in consecutive groups of four bytes; a shorter last group is dropped. -/
def words : List UInt8 → List UInt32
  | a :: b :: c :: d :: bs => u32 [a, b, c, d] :: words bs
  | _ => []

@[simp] theorem u16_digits (w : UInt16) (bs : List UInt8) :
    u16 (digits 2 w.toNat ++ bs) = w := by
  have hlen := length_digits 2 w.toNat
  rw [u16, List.take_left' hlen, value_digits]
  apply UInt16.toNat_inj.1
  have hcap : capacity 2 = UInt16.size := rfl
  rw [UInt16.toNat_ofNat', hcap]
  simp [Nat.mod_eq_of_lt w.toNat_lt]

@[simp] theorem u32_digits (w : UInt32) (bs : List UInt8) :
    u32 (digits 4 w.toNat ++ bs) = w := by
  have hlen := length_digits 4 w.toNat
  rw [u32, List.take_left' hlen, value_digits]
  apply UInt32.toNat_inj.1
  have hcap : capacity 4 = UInt32.size := rfl
  rw [UInt32.toNat_ofNat', hcap]
  simp [Nat.mod_eq_of_lt w.toNat_lt]

@[simp] theorem u64_digits (w : UInt64) (bs : List UInt8) :
    u64 (digits 8 w.toNat ++ bs) = w := by
  have hlen := length_digits 8 w.toNat
  rw [u64, List.take_left' hlen, value_digits]
  apply UInt64.toNat_inj.1
  have hcap : capacity 8 = UInt64.size := rfl
  rw [UInt64.toNat_ofNat', hcap]
  simp [Nat.mod_eq_of_lt w.toNat_lt]

theorem digits_u16 {bs : List UInt8} (h : bs.length = 2) : digits 2 (u16 bs).toNat = bs := by
  have hlt := value_lt bs
  rw [h, show capacity 2 = UInt16.size from rfl] at hlt
  rw [u16, List.take_of_length_le (by omega), UInt16.toNat_ofNat_of_lt' hlt, ← h, digits_value]

theorem digits_u32 {bs : List UInt8} (h : bs.length = 4) : digits 4 (u32 bs).toNat = bs := by
  have hlt := value_lt bs
  rw [h, show capacity 4 = UInt32.size from rfl] at hlt
  rw [u32, List.take_of_length_le (by omega), UInt32.toNat_ofNat_of_lt' hlt, ← h, digits_value]

theorem digits_u64 {bs : List UInt8} (h : bs.length = 8) : digits 8 (u64 bs).toNat = bs := by
  have hlt := value_lt bs
  rw [h, show capacity 8 = UInt64.size from rfl] at hlt
  rw [u64, List.take_of_length_le (by omega), UInt64.toNat_ofNat_of_lt' hlt, ← h, digits_value]

end MachImage.LittleEndian
