/-!
# LEB128 numbers

A LEB128 number is a sequence of groups of seven bits, least significant
first, one in each byte; all bytes but the last have their top bit set.  A
64-bit reader takes at most ten bytes.

`groups` collects the groups of the bytes at the front of a list.
`unsigned?` and `signed?` read a number with shortcuts for the encodings of
one or two bytes, which are by far the most frequent; `unsignedByGroups?` and
`signedByGroups?` do without them.  `encodeNat` and `encodeInt` write a
number with as few bytes as possible.
-/

namespace MachImage.Leb128

/-- Groups of seven bits put together. -/
structure Groups where
  /-- The groups from the least significant bit on, those beyond bit 63 lost. -/
  bits : UInt64
  /-- How many bytes were taken. -/
  used : Nat
  /-- The last byte. -/
  last : UInt8
  deriving DecidableEq, Repr

/-- The seven payload bits of a byte. -/
def payload (b : UInt8) : UInt64 := (b &&& 0x7F).toUInt64

/-- Adds groups to `bits` until a byte without its top bit.  `used` bytes came before; there is no
number if the list ends first or if the next group starts beyond the 64th bit. -/
def groupsFrom (used : Nat) (bits : UInt64) : List UInt8 → Option Groups
  | [] => none
  | b :: bs =>
    if 64 ≤ 7 * used then none
    else
      let bits := bits ||| (payload b <<< UInt64.ofNat (7 * used))
      if b < 0x80 then some { bits, used := used + 1, last := b }
      else groupsFrom (used + 1) bits bs

/-- The groups at the front of a list. -/
def groups (bs : List UInt8) : Option Groups := groupsFrom 0 0 bs

/-- The bits of a signed number: bit 6 of the last byte fills the bits above the last group. -/
def Groups.signExtended (g : Groups) : UInt64 :=
  if 7 * g.used < 64 ∧ g.last &&& 0x40 ≠ 0 then
    g.bits ||| (0xFFFFFFFFFFFFFFFF <<< UInt64.ofNat (7 * g.used))
  else g.bits

/-- An unsigned number and the count of its bytes, read group by group. -/
def unsignedByGroups? (bs : List UInt8) : Option (UInt64 × Nat) :=
  (groups bs).map fun g => (g.bits, g.used)

/-- A signed number and the count of its bytes, read group by group. -/
def signedByGroups? (bs : List UInt8) : Option (Int64 × Nat) :=
  (groups bs).map fun g => (g.signExtended.toInt64, g.used)

/-- An unsigned number and the count of its bytes. -/
def unsigned? : List UInt8 → Option (UInt64 × Nat)
  | [] => none
  | b₀ :: rest =>
    if b₀ < 0x80 then some (b₀.toUInt64, 1)
    else
      match rest with
      | [] => none
      | b₁ :: _ =>
        if b₁ < 0x80 then some (payload b₀ ||| (b₁.toUInt64 <<< 7), 2)
        else unsignedByGroups? (b₀ :: rest)

/-- A signed number and the count of its bytes. -/
def signed? : List UInt8 → Option (Int64 × Nat)
  | [] => none
  | b₀ :: rest =>
    if b₀ < 0x80 then
      let bits := if b₀ &&& 0x40 ≠ 0 then b₀.toUInt64 ||| 0xFFFFFFFFFFFFFF80 else b₀.toUInt64
      some (bits.toInt64, 1)
    else signedByGroups? (b₀ :: rest)

/-! ## Writing -/

/-- The shortest encoding of a natural number. -/
def encodeNat (n : Nat) : List UInt8 :=
  if n < 128 then [UInt8.ofNat n]
  else UInt8.ofNat (n % 128 + 128) :: encodeNat (n / 128)
termination_by n

/-- The shortest encoding of an integer: the last byte's bit 6 is the sign. -/
def encodeInt (i : Int) : List UInt8 :=
  if -64 ≤ i ∧ i < 64 then [UInt8.ofNat (i % 128).toNat]
  else UInt8.ofNat ((i % 128).toNat + 128) :: encodeInt (i / 128)
termination_by i.natAbs
decreasing_by omega

/-- The shortest encoding of an unsigned 64-bit number. -/
def encodeUnsigned (v : UInt64) : List UInt8 := encodeNat v.toNat

/-- The shortest encoding of a signed 64-bit number. -/
def encodeSigned (v : Int64) : List UInt8 := encodeInt v.toInt

/-! ## Bounds -/

theorem groupsFrom_used {used : Nat} {bits : UInt64} {bs : List UInt8} {g : Groups}
    (h : groupsFrom used bits bs = some g) : used < g.used ∧ g.used ≤ used + bs.length := by
  induction bs generalizing used bits with
  | nil => simp [groupsFrom] at h
  | cons b bs ih =>
    rw [groupsFrom] at h
    split at h
    · simp at h
    · dsimp only at h
      split at h
      · cases h
        simp only [List.length_cons]
        omega
      · have := ih h
        simp only [List.length_cons]
        omega

/-- A number takes at least one byte and no more than there are. -/
theorem groups_used {bs : List UInt8} {g : Groups} (h : groups bs = some g) :
    0 < g.used ∧ g.used ≤ bs.length := by
  simpa using groupsFrom_used h

end MachImage.Leb128
