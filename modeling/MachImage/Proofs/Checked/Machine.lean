import MachImage.Bytes.LittleEndian
import MachImage.Leb128
import MachImage.Text.Name
import Mathlib.Tactic.Common

/-!
# Operations that can stop

A program that computes with machine words stops where an operation has no
result: a sum or a product that does not fit the word, a difference below zero,
a division by zero, a shift by the width or more, a part of some bytes that does
not lie inside them.  Each of these operations is here a function to an optional
value, and `none` says that the program stops.  Memory is taken to be large
enough.

The rest of the file puts together what is computed from bytes alone, names and
numbers in LEB128, from such operations, and says that none of them stops
(`firstBytes_zeroIndex`, `unsigned_eq_some`, `signed_eq_some`).
-/

namespace MachImage.Checked

/-! ## Operations -/

/-- The sum of two numbers below `bound`. -/
def sum (bound a b : Nat) : Option Nat := if a + b < bound then some (a + b) else none

/-- The product of two numbers below `bound`. -/
def product (bound a b : Nat) : Option Nat := if a * b < bound then some (a * b) else none

/-- The difference of two numbers without a sign. -/
def difference (a b : Nat) : Option Nat := if b ≤ a then some (a - b) else none

/-- The quotient of two numbers. -/
def quotient (a b : Nat) : Option Nat := if b = 0 then none else some (a / b)

/-- A 64-bit number shifted to the left. -/
def shiftLeft (v : UInt64) (n : Nat) : Option UInt64 :=
  if n < 64 then some (v <<< UInt64.ofNat n) else none

/-- The bytes from `start` up to `stop`. -/
def slice (bs : ByteArray) (start stop : Nat) : Option ByteArray :=
  if start ≤ stop ∧ stop ≤ bs.size then some (bs.extract start stop) else none

/-- The first `n` bytes of a list. -/
def firstBytes (bs : List UInt8) (n : Nat) : Option (List UInt8) :=
  if n ≤ bs.length then some (bs.take n) else none

theorem sum_eq_some {bound a b : Nat} (h : a + b < bound) : sum bound a b = some (a + b) := if_pos h

theorem sum_eq_none {bound a b : Nat} (h : bound ≤ a + b) : sum bound a b = none :=
  if_neg (Nat.not_lt.2 h)

theorem product_eq_some {bound a b : Nat} (h : a * b < bound) : product bound a b = some (a * b) :=
  if_pos h

theorem product_eq_none {bound a b : Nat} (h : bound ≤ a * b) : product bound a b = none :=
  if_neg (Nat.not_lt.2 h)

theorem difference_eq_some {a b : Nat} (h : b ≤ a) : difference a b = some (a - b) := if_pos h

theorem quotient_eq_some {a b : Nat} (h : b ≠ 0) : quotient a b = some (a / b) := if_neg h

theorem shiftLeft_eq_some {n : Nat} (h : n < 64) (v : UInt64) :
    shiftLeft v n = some (v <<< UInt64.ofNat n) := if_pos h

theorem slice_eq_some {bs : ByteArray} {start stop : Nat} (h : start ≤ stop)
    (hstop : stop ≤ bs.size) : slice bs start stop = some (bs.extract start stop) :=
  if_pos ⟨h, hstop⟩

theorem firstBytes_eq_some {bs : List UInt8} {n : Nat} (h : n ≤ bs.length) :
    firstBytes bs n = some (bs.take n) := if_pos h

/-! ## Names -/

/-- The bytes before the first zero byte are cut off at a place that is found among them. -/
theorem firstBytes_zeroIndex (bs : List UInt8) :
    firstBytes bs (Name.zeroIndex bs) = some (Name.beforeZero bs) := by
  rw [firstBytes_eq_some (Name.zeroIndex_le_length bs)]
  exact congrArg some (List.prefix_iff_eq_take.1 (List.takeWhile_prefix _)).symm

/-- The name in a field of bytes. -/
def name (bs : List UInt8) : Option String :=
  (firstBytes bs (Name.zeroIndex bs)).map Utf8.decodeLossy

theorem name_eq_some (bs : List UInt8) : name bs = some (Name.ofField bs) := by
  rw [name, firstBytes_zeroIndex]
  rfl

/-- A name that a zero byte has to end, and the count of bytes with the zero byte.  The inner value
is missing if there is no zero byte. -/
def terminated (bs : List UInt8) : Option (Option (String × Nat)) :=
  if Name.zeroIndex bs = bs.length then some none
  else do
    let name ← firstBytes bs (Name.zeroIndex bs)
    let used ← sum UInt64.size (Name.zeroIndex bs) 1
    return some (Utf8.decodeLossy name, used)

theorem terminated_eq_some {bs : List UInt8} (h : bs.length < UInt64.size) :
    terminated bs = some (Name.terminated? bs) := by
  have hle := Name.zeroIndex_le_length bs
  unfold terminated Name.terminated?
  by_cases hend : Name.zeroIndex bs = bs.length
  · rw [if_pos hend, if_neg (by omega)]
  · rw [if_neg hend, if_pos (by omega), firstBytes_zeroIndex, sum_eq_some (by omega)]
    rfl

/-! ## Numbers of four bytes -/

/-- Numbers in groups of four bytes; a shorter last group is dropped. -/
def words : List UInt8 → Option (List UInt32)
  | a :: b :: c :: d :: bs => do
    let w ← LittleEndian.u32? [a, b, c, d]
    let ws ← words bs
    return w :: ws
  | _ => some []

theorem words_eq_some (bs : List UInt8) : words bs = some (LittleEndian.words bs) := by
  induction bs using words.induct with
  | case1 a b c d bs ih =>
    rw [words, ih, LittleEndian.words]
    rfl
  | case2 bs h =>
    rw [words.eq_2 bs h, LittleEndian.words.eq_2 bs h]

/-! ## Numbers in LEB128 -/

/-- The groups at the front of a list and the count of their bits, with the counts of the bytes and
of the bits that came before.  The inner value is missing if there is no number. -/
def groupsFrom (used shift : Nat) (bits : UInt64) :
    List UInt8 → Option (Option (Leb128.Groups × Nat))
  | [] => some none
  | b :: bs =>
    if 64 ≤ shift then some none
    else do
      let part ← shiftLeft (Leb128.payload b) shift
      let shift ← sum UInt32.size shift 7
      let used ← sum UInt64.size used 1
      if b < 0x80 then some (some ({ bits := bits ||| part, used, last := b }, shift))
      else groupsFrom used shift (bits ||| part) bs

/-- An unsigned number and the count of its bytes. -/
def unsigned (bs : List UInt8) : Option (Option (UInt64 × Nat)) :=
  match bs with
  | [] => some none
  | b₀ :: rest =>
    if b₀ < 0x80 then some (some (b₀.toUInt64, 1))
    else
      match rest with
      | [] => some none
      | b₁ :: _ =>
        if b₁ < 0x80 then do
          let part ← shiftLeft b₁.toUInt64 7
          return some (Leb128.payload b₀ ||| part, 2)
        else do
          let found ← groupsFrom 0 0 0 bs
          return found.map fun (g, _) => (g.bits, g.used)

/-- The bits of a signed number of `shift` bits, the sign filling those above. -/
def signExtended (g : Leb128.Groups) (shift : Nat) : Option UInt64 :=
  if shift < 64 ∧ g.last &&& 0x40 ≠ 0 then do
    let ones ← shiftLeft 0xFFFFFFFFFFFFFFFF shift
    return g.bits ||| ones
  else some g.bits

/-- A signed number and the count of its bytes. -/
def signed (bs : List UInt8) : Option (Option (Int64 × Nat)) :=
  match bs with
  | [] => some none
  | b₀ :: _ =>
    if b₀ < 0x80 then
      let bits := if b₀ &&& 0x40 ≠ 0 then b₀.toUInt64 ||| 0xFFFFFFFFFFFFFF80 else b₀.toUInt64
      some (some (bits.toInt64, 1))
    else do
      match ← groupsFrom 0 0 0 bs with
      | none => return none
      | some (g, shift) =>
        let bits ← signExtended g shift
        return some (bits.toInt64, g.used)

/-- Groups are shifted by less than 64 bits, since the reading ends before. -/
theorem groupsFrom_eq_some {used : Nat} (bits : UInt64) {bs : List UInt8}
    (h : used + bs.length < UInt64.size) :
    groupsFrom used (7 * used) bits bs =
      some ((Leb128.groupsFrom used bits bs).map fun g => (g, 7 * g.used)) := by
  induction bs generalizing used bits with
  | nil => rfl
  | cons b bs ih =>
    rw [List.length_cons] at h
    by_cases hused : 64 ≤ 7 * used
    · rw [groupsFrom, if_pos hused, Leb128.groupsFrom, if_pos hused]
      rfl
    · have hshift : 7 * used < 64 := Nat.lt_of_not_le hused
      have hwidth : 7 * used + 7 < UInt32.size := Nat.lt_trans (by omega) (by decide : 71 < _)
      rw [groupsFrom, if_neg hused, shiftLeft_eq_some hshift, sum_eq_some hwidth,
        sum_eq_some (by omega), Leb128.groupsFrom, if_neg hused]
      simp only [Option.bind_eq_bind, Option.bind_some]
      by_cases hlast : b < 0x80
      · rw [if_pos hlast, if_pos hlast]
        rfl
      · rw [if_neg hlast, if_neg hlast]
        exact ih _ (by omega)

theorem groups_eq_some {bs : List UInt8} (h : bs.length < UInt64.size) :
    groupsFrom 0 0 0 bs = some ((Leb128.groups bs).map fun g => (g, 7 * g.used)) :=
  groupsFrom_eq_some 0 ((Nat.zero_add _).symm ▸ h)

theorem unsigned_eq_some {bs : List UInt8} (h : bs.length < UInt64.size) :
    unsigned bs = some (Leb128.unsigned? bs) := by
  cases bs with
  | nil => rfl
  | cons b₀ rest =>
    have hgroups := groups_eq_some h
    by_cases hfirst : b₀ < 0x80
    · simp only [unsigned, Leb128.unsigned?, if_pos hfirst]
    · simp only [unsigned, Leb128.unsigned?, if_neg hfirst]
      cases rest with
      | nil => rfl
      | cons b₁ rest =>
        by_cases hsecond : b₁ < 0x80
        · simp only [if_pos hsecond]
          rfl
        · simp only [if_neg hsecond, hgroups, Leb128.unsignedByGroups?]
          cases Leb128.groups (b₀ :: b₁ :: rest) <;> rfl

/-- The sign is shifted by less than 64 bits too. -/
theorem signExtended_eq_some (g : Leb128.Groups) :
    signExtended g (7 * g.used) = some g.signExtended := by
  unfold signExtended Leb128.Groups.signExtended
  by_cases hsign : 7 * g.used < 64 ∧ g.last &&& 0x40 ≠ 0
  · rw [if_pos hsign, if_pos hsign, shiftLeft_eq_some hsign.1]
    rfl
  · rw [if_neg hsign, if_neg hsign]

theorem signed_eq_some {bs : List UInt8} (h : bs.length < UInt64.size) :
    signed bs = some (Leb128.signed? bs) := by
  cases bs with
  | nil => rfl
  | cons b₀ rest =>
    have hgroups := groups_eq_some h
    by_cases hfirst : b₀ < 0x80
    · simp only [signed, Leb128.signed?, if_pos hfirst]
    · simp only [signed, Leb128.signed?, if_neg hfirst, hgroups, Leb128.signedByGroups?]
      cases Leb128.groups (b₀ :: rest) with
      | none => rfl
      | some g =>
        simp only [Option.map_some, Option.bind_eq_bind, Option.bind_some, signExtended_eq_some]
        rfl

end MachImage.Checked
