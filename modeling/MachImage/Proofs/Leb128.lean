import MachImage.Leb128
import Mathlib.Tactic.Ring

/-!
# LEB128 numbers read back

`unsigned?_eq` and `signed?_eq` say that the shortcuts for short encodings
change nothing.  `unsigned?_encodeUnsigned` and `signed?_encodeSigned` say that
a number written with as few bytes as possible is read back, whatever follows
it, and that the reader uses exactly the bytes of the encoding.

Both round trips are inductions on the encoding whose invariant is about the
groups already read: `bits` holds the low `7 * used` bits of the number, and
the number that is left is what remains above them.
-/

namespace MachImage.Leb128

/-! ## One more group -/

@[simp] theorem toNat_payload (b : UInt8) : (payload b).toNat = b.toNat % 128 := by
  have hmask : (0x7F : UInt8).toNat = 2 ^ 7 - 1 := rfl
  rw [payload, UInt8.toNat_toUInt64, UInt8.toNat_and, hmask, Nat.and_two_pow_sub_one_eq_mod]

/-- Bits put above the `s` bits that are there, those beyond bit 63 lost. -/
theorem toNat_or_shiftLeft {bits : UInt64} {s : Nat} (p : UInt64) (hs : s < 64)
    (hbits : bits.toNat < 2 ^ s) :
    (bits ||| (p <<< UInt64.ofNat s)).toNat = bits.toNat + 2 ^ s * (p.toNat % 2 ^ (64 - s)) := by
  have hshift : (UInt64.ofNat s).toNat % 64 = s := by
    rw [UInt64.toNat_ofNat_of_lt' (by rw [UInt64.size]; omega), Nat.mod_eq_of_lt hs]
  have hsplit : 2 ^ 64 = 2 ^ s * 2 ^ (64 - s) := by rw [← Nat.pow_add]; congr 1; omega
  have hhigh : p.toNat * 2 ^ s % 2 ^ 64 = 2 ^ s * (p.toNat % 2 ^ (64 - s)) := by
    rw [hsplit, Nat.mul_comm p.toNat, Nat.mul_mod_mul_left]
  rw [UInt64.toNat_or, UInt64.toNat_shiftLeft, hshift, Nat.shiftLeft_eq, hhigh, Nat.or_comm,
    ← Nat.two_pow_add_eq_or_of_lt hbits, Nat.add_comm]

/-- A group that fits is added as a digit of base 128. -/
theorem toNat_or_payload {bits : UInt64} {used : Nat} {b : UInt8} (hused : 7 * used < 64)
    (hbits : bits.toNat < 2 ^ (7 * used)) (hfit : b.toNat % 128 * 2 ^ (7 * used) < 2 ^ 64) :
    (bits ||| (payload b <<< UInt64.ofNat (7 * used))).toNat
      = bits.toNat + b.toNat % 128 * 2 ^ (7 * used) := by
  have hsplit : 2 ^ 64 = 2 ^ (64 - 7 * used) * 2 ^ (7 * used) := by
    rw [← Nat.pow_add]; congr 1; omega
  have hlt : b.toNat % 128 < 2 ^ (64 - 7 * used) := by
    rw [hsplit] at hfit
    exact Nat.lt_of_mul_lt_mul_right hfit
  rw [toNat_or_shiftLeft _ hused hbits, toNat_payload, Nat.mod_eq_of_lt hlt, Nat.mul_comm]

theorem two_pow_seven_mul_succ (used : Nat) : 2 ^ (7 * (used + 1)) = 128 * 2 ^ (7 * used) := by
  rw [show 7 * (used + 1) = 7 * used + 7 by omega, Nat.pow_add, Nat.mul_comm]

/-- The groups from a byte on, as long as the 64th bit has not been passed. -/
theorem groupsFrom_cons {used : Nat} (hused : 7 * used < 64) (bits : UInt64) (b : UInt8)
    (bs : List UInt8) :
    groupsFrom used bits (b :: bs) =
      if b < 0x80 then some ⟨bits ||| (payload b <<< UInt64.ofNat (7 * used)), used + 1, b⟩
      else groupsFrom (used + 1) (bits ||| (payload b <<< UInt64.ofNat (7 * used))) bs := by
  rw [groupsFrom, if_neg (by omega)]

theorem lt_0x80_iff (b : UInt8) : b < 0x80 ↔ b.toNat < 128 := UInt8.lt_iff_toNat_lt

/-! ## Shortcuts -/

theorem payload_of_lt {b : UInt8} (h : b < 0x80) : payload b = b.toUInt64 := by
  rw [lt_0x80_iff] at h
  apply UInt64.toNat_inj.1
  rw [toNat_payload, UInt8.toNat_toUInt64, Nat.mod_eq_of_lt h]

/-- The shortcuts for one and two bytes read what the groups say. -/
theorem unsigned?_eq (bs : List UInt8) : unsigned? bs = unsignedByGroups? bs := by
  cases bs with
  | nil => rfl
  | cons b₀ rest =>
    by_cases hb₀ : b₀ < 0x80
    · simp [unsigned?, unsignedByGroups?, groups, groupsFrom_cons, hb₀, payload_of_lt hb₀]
    · cases rest with
      | nil => simp [unsigned?, unsignedByGroups?, groups, groupsFrom, hb₀]
      | cons b₁ rest =>
        by_cases hb₁ : b₁ < 0x80
        · simp [unsigned?, unsignedByGroups?, groups, groupsFrom_cons, hb₀, hb₁,
            payload_of_lt hb₁]
        · simp [unsigned?, hb₀, hb₁]

/-- The shortcut for one byte reads what the groups say. -/
theorem signed?_eq (bs : List UInt8) : signed? bs = signedByGroups? bs := by
  cases bs with
  | nil => rfl
  | cons b₀ rest =>
    by_cases hb₀ : b₀ < 0x80
    · have hones : (0xFFFFFFFFFFFFFFFF : UInt64) <<< 7 = 0xFFFFFFFFFFFFFF80 := by decide
      simp [signed?, signedByGroups?, groups, groupsFrom_cons, hb₀, payload_of_lt hb₀,
        Groups.signExtended, hones]
    · simp [signed?, hb₀]

/-! ## Unsigned round trip -/

/-- A number written above the groups that are there is added to them. -/
theorem groupsFrom_encodeNat (n used : Nat) (bits : UInt64) (rest : List UInt8)
    (hused : 7 * used < 64) (hbits : bits.toNat < 2 ^ (7 * used))
    (hfit : bits.toNat + n * 2 ^ (7 * used) < 2 ^ 64) :
    ∃ g, groupsFrom used bits (encodeNat n ++ rest) = some g ∧
      g.bits.toNat = bits.toNat + n * 2 ^ (7 * used) ∧
      g.used = used + (encodeNat n).length := by
  induction n using encodeNat.induct generalizing used bits with
  | case1 n hn =>
    have hb : (UInt8.ofNat n).toNat = n := by rw [UInt8.toNat_ofNat']; omega
    have hmod : (UInt8.ofNat n).toNat % 128 = n := by omega
    rw [encodeNat, if_pos hn, List.singleton_append, groupsFrom_cons hused,
      if_pos ((lt_0x80_iff _).2 (by omega))]
    refine ⟨_, rfl, ?_, rfl⟩
    rw [toNat_or_payload hused hbits (by rw [hmod]; omega), hmod]
  | case2 n hn ih =>
    have hb : (UInt8.ofNat (n % 128 + 128)).toNat = n % 128 + 128 := by
      rw [UInt8.toNat_ofNat']; omega
    have hmod : (UInt8.ofNat (n % 128 + 128)).toNat % 128 = n % 128 := by omega
    have hpow := two_pow_seven_mul_succ used
    have hdigits : n * 2 ^ (7 * used)
        = n % 128 * 2 ^ (7 * used) + n / 128 * 2 ^ (7 * (used + 1)) := by
      calc n * 2 ^ (7 * used) = (n % 128 + 128 * (n / 128)) * 2 ^ (7 * used) := by
            rw [Nat.mod_add_div]
        _ = _ := by rw [hpow]; ring
    have hgroup : n % 128 * 2 ^ (7 * used) ≤ 127 * 2 ^ (7 * used) :=
      Nat.mul_le_mul_right _ (by omega)
    have hsum := toNat_or_payload (b := UInt8.ofNat (n % 128 + 128)) hused hbits
      (by rw [hmod]; omega)
    rw [hmod] at hsum
    -- the number that is left is not zero, so the next group starts within 64 bits
    have hnext : 7 * (used + 1) < 64 := by
      have hone : 1 * 2 ^ (7 * (used + 1)) ≤ n / 128 * 2 ^ (7 * (used + 1)) :=
        Nat.mul_le_mul_right _ (by omega)
      exact (Nat.pow_lt_pow_iff_right (by decide : 1 < 2)).1 (by omega)
    obtain ⟨g, hg, hgbits, hgused⟩ := ih _ _ hnext (by rw [hsum, hpow]; omega) (by rw [hsum]; omega)
    rw [encodeNat, if_neg hn, List.cons_append, groupsFrom_cons hused,
      if_neg (by rw [lt_0x80_iff]; omega)]
    refine ⟨g, hg, by rw [hgbits, hsum]; omega, ?_⟩
    rw [hgused, List.length_cons]
    omega

/-- An unsigned number is read back from its shortest encoding. -/
theorem unsigned?_encodeUnsigned (v : UInt64) (rest : List UInt8) :
    unsigned? (encodeUnsigned v ++ rest) = some (v, (encodeUnsigned v).length) := by
  have hv := v.toNat_lt
  obtain ⟨g, hg, hbits, hused⟩ :=
    groupsFrom_encodeNat v.toNat 0 0 rest (by decide) (by decide)
      (by simpa using hv)
  have hbits' : g.bits = v := UInt64.toNat_inj.1 (by simpa using hbits)
  rw [unsigned?_eq, unsignedByGroups?, groups, encodeUnsigned, hg, Option.map_some, hbits', hused,
    Nat.zero_add]

/-! ## Signed round trip -/

/-- A word as a signed number: the upper half of the words are the negative ones. -/
theorem toInt_toInt64 (w : UInt64) :
    w.toInt64.toInt = if w.toNat < 2 ^ 63 then (w.toNat : Int) else w.toNat - 2 ^ 64 := by
  have h : w.toInt64.toInt = w.toBitVec.toInt := rfl
  rw [h, BitVec.toInt_eq_toNat_cond, UInt64.toNat_toBitVec]
  by_cases hw : w.toNat < 2 ^ 63
  · rw [if_pos hw, if_pos (by omega)]
  · rw [if_neg hw, if_neg (by omega)]
    rfl

/-- Bit 6 of a byte below 128 is its sign. -/
theorem and_0x40_ne_zero_iff {b : UInt8} (hb : b.toNat < 128) : b &&& 0x40 ≠ 0 ↔ 64 ≤ b.toNat := by
  have hall : ∀ n < 128, n &&& 64 ≠ 0 ↔ 64 ≤ n := by decide
  rw [← hall b.toNat hb, not_iff_not, ← UInt8.toNat_inj, UInt8.toNat_and]
  rfl

/-- Ones put above `s` bits are `2 ^ 64 - 2 ^ s`. -/
theorem toNat_or_ones {bits : UInt64} {s : Nat} (hs : s < 64) (hbits : bits.toNat < 2 ^ s) :
    (bits ||| (0xFFFFFFFFFFFFFFFF <<< UInt64.ofNat s)).toNat = bits.toNat + (2 ^ 64 - 2 ^ s) := by
  have hsplit : 2 ^ 64 = 2 ^ (64 - s) * (2 ^ s - 1) + 2 ^ (64 - s) := by
    rw [Nat.mul_sub, Nat.mul_one, ← Nat.pow_add, Nat.sub_add_cancel, Nat.sub_add_cancel (by omega)]
    exact Nat.pow_le_pow_right (by decide) (by omega)
  have hpos : 0 < 2 ^ (64 - s) := Nat.two_pow_pos _
  have hones : (0xFFFFFFFFFFFFFFFF : UInt64).toNat % 2 ^ (64 - s) = 2 ^ (64 - s) - 1 := by
    rw [show (0xFFFFFFFFFFFFFFFF : UInt64).toNat = 2 ^ 64 - 1 from rfl, hsplit,
      Nat.add_sub_assoc hpos, Nat.mul_add_mod, Nat.mod_eq_of_lt (by omega)]
  have hmul : 2 ^ s * 2 ^ (64 - s) = 2 ^ 64 := by rw [← Nat.pow_add]; congr 1; omega
  rw [toNat_or_shiftLeft _ hs hbits, hones, Nat.mul_sub, Nat.mul_one, hmul]

theorem signExtended_mk (bits : UInt64) (used : Nat) (last : UInt8) :
    Groups.signExtended ⟨bits, used, last⟩ =
      if 7 * used < 64 ∧ last &&& 0x40 ≠ 0 then
        bits ||| (0xFFFFFFFFFFFFFFFF <<< UInt64.ofNat (7 * used))
      else bits := rfl

/-- The sign of the last group fills the bits above it, if there are any. -/
theorem toInt_signExtended {bits : UInt64} {used : Nat} {last : UInt8} (hused : 7 * used < 64)
    (hbits : bits.toNat < 2 ^ (7 * used)) (hlast : last.toNat < 128) :
    (Groups.signExtended ⟨bits, used, last⟩).toInt64.toInt
      = if 64 ≤ last.toNat then (bits.toNat : Int) - (2 ^ (7 * used) : Nat) else bits.toNat := by
  have hle : 2 ^ (7 * used) ≤ 2 ^ 63 := Nat.pow_le_pow_right (by decide) (by omega)
  by_cases hneg : 64 ≤ last.toNat
  · rw [signExtended_mk, if_pos ⟨hused, (and_0x40_ne_zero_iff hlast).2 hneg⟩, toInt_toInt64,
      toNat_or_ones hused hbits, if_neg (by omega), if_pos hneg]
    omega
  · rw [signExtended_mk, if_neg fun h => hneg ((and_0x40_ne_zero_iff hlast).1 h.2),
      toInt_toInt64, if_pos (by omega), if_neg hneg]

/-- Above nine groups only the sign is left, in the one bit that is. -/
theorem toInt_signExtended_ten {bits : UInt64} {i : Int} (hi : -64 ≤ i ∧ i < 64)
    (hbits : bits.toNat < 2 ^ 63) (hlow : -2 ^ 63 ≤ bits.toNat + i * 2 ^ 63)
    (hhigh : bits.toNat + i * 2 ^ 63 < 2 ^ 63) {b : UInt8} (hb : b.toNat = (i % 128).toNat) :
    (Groups.signExtended ⟨bits ||| (payload b <<< UInt64.ofNat 63), 10, b⟩).toInt64.toInt
      = bits.toNat + i * 2 ^ 63 := by
  have hsum := toNat_or_shiftLeft (payload b) (by decide) hbits
  rw [toNat_payload, hb] at hsum
  rw [signExtended_mk, if_neg (by omega), toInt_toInt64, hsum]
  have hcases : i = 0 ∨ i = -1 := by omega
  rcases hcases with rfl | rfl
  · rw [if_pos (by omega)]
    omega
  · rw [if_neg (by omega)]
    omega

/-- A signed number written above the groups that are there is added to them. -/
theorem groupsFrom_encodeInt (i : Int) (used : Nat) (bits : UInt64) (rest : List UInt8)
    (hused : 7 * used < 64) (hbits : bits.toNat < 2 ^ (7 * used))
    (hlow : -2 ^ 63 ≤ bits.toNat + i * (2 ^ (7 * used) : Nat))
    (hhigh : bits.toNat + i * (2 ^ (7 * used) : Nat) < 2 ^ 63) :
    ∃ g, groupsFrom used bits (encodeInt i ++ rest) = some g ∧
      g.signExtended.toInt64.toInt = bits.toNat + i * (2 ^ (7 * used) : Nat) ∧
      g.used = used + (encodeInt i).length := by
  have hnine : used = 9 ∨ 7 * (used + 1) < 64 := by omega
  induction i using encodeInt.induct generalizing used bits with
  | case1 i hi =>
    have hb : (UInt8.ofNat (i % 128).toNat).toNat = (i % 128).toNat := by
      rw [UInt8.toNat_ofNat']; omega
    have hmod : (UInt8.ofNat (i % 128).toNat).toNat % 128 = (i % 128).toNat := by omega
    rw [encodeInt, if_pos hi, List.singleton_append, groupsFrom_cons hused,
      if_pos ((lt_0x80_iff _).2 (by omega))]
    refine ⟨_, rfl, ?_, rfl⟩
    rcases hnine with rfl | hnext
    · exact toInt_signExtended_ten hi hbits hlow hhigh hb
    · have hpow := two_pow_seven_mul_succ used
      have hle : 2 ^ (7 * (used + 1)) ≤ 2 ^ 63 := Nat.pow_le_pow_right (by decide) (by omega)
      have hgroup : (i % 128).toNat * 2 ^ (7 * used) ≤ 127 * 2 ^ (7 * used) :=
        Nat.mul_le_mul_right _ (by omega)
      have hsum := toNat_or_payload (b := UInt8.ofNat (i % 128).toNat) hused hbits
        (by rw [hmod]; omega)
      rw [hmod] at hsum
      rw [toInt_signExtended hnext (by rw [hsum, hpow]; omega) (by omega), hsum, hb, hpow]
      by_cases hneg : i < 0
      · have hdigit : ((i % 128).toNat : Int) = i + 128 := by omega
        rw [if_pos (by omega)]
        push_cast [hdigit]
        ring
      · have hdigit : ((i % 128).toNat : Int) = i := by omega
        rw [if_neg (by omega)]
        push_cast [hdigit]
        rfl
  | case2 i hi ih =>
    have hnext : 7 * (used + 1) < 64 := by
      rcases hnine with rfl | hnext
      · omega
      · exact hnext
    have hb : (UInt8.ofNat ((i % 128).toNat + 128)).toNat = (i % 128).toNat + 128 := by
      rw [UInt8.toNat_ofNat']; omega
    have hmod : (UInt8.ofNat ((i % 128).toNat + 128)).toNat % 128 = (i % 128).toNat := by omega
    have hpow := two_pow_seven_mul_succ used
    have hle : 2 ^ (7 * (used + 1)) ≤ 2 ^ 63 := Nat.pow_le_pow_right (by decide) (by omega)
    have hgroup : (i % 128).toNat * 2 ^ (7 * used) ≤ 127 * 2 ^ (7 * used) :=
      Nat.mul_le_mul_right _ (by omega)
    have hsum := toNat_or_payload (b := UInt8.ofNat ((i % 128).toNat + 128)) hused hbits
      (by rw [hmod]; omega)
    rw [hmod] at hsum
    have hdigits : (bits.toNat + (i % 128).toNat * 2 ^ (7 * used) : Nat)
          + i / 128 * (2 ^ (7 * (used + 1)) : Nat)
        = (bits.toNat : Int) + i * (2 ^ (7 * used) : Nat) := by
      have hdigit : ((i % 128).toNat : Int) = i % 128 := by omega
      have hdiv : i % 128 + 128 * (i / 128) = i := Int.emod_add_mul_ediv i 128
      rw [hpow]
      push_cast [hdigit]
      calc (bits.toNat : Int) + i % 128 * 2 ^ (7 * used) + i / 128 * (128 * 2 ^ (7 * used))
          = bits.toNat + (i % 128 + 128 * (i / 128)) * 2 ^ (7 * used) := by ring
        _ = _ := by rw [hdiv]
    obtain ⟨g, hg, hint, hgused⟩ := ih _ _ hnext (by rw [hsum, hpow]; omega)
      (by rw [hsum, hdigits]; exact hlow) (by rw [hsum, hdigits]; exact hhigh) (by omega)
    rw [encodeInt, if_neg hi, List.cons_append, groupsFrom_cons hused,
      if_neg (by rw [lt_0x80_iff]; omega)]
    refine ⟨g, hg, by rw [hint, hsum, hdigits], ?_⟩
    rw [hgused, List.length_cons]
    omega

/-- A signed number is read back from its shortest encoding. -/
theorem signed?_encodeSigned (v : Int64) (rest : List UInt8) :
    signed? (encodeSigned v ++ rest) = some (v, (encodeSigned v).length) := by
  have hlow := v.le_toInt
  have hhigh := v.toInt_lt
  obtain ⟨g, hg, hint, hused⟩ :=
    groupsFrom_encodeInt v.toInt 0 0 rest (by decide) (by decide)
      (by simpa using hlow) (by simpa using hhigh)
  have hint' : g.signExtended.toInt64 = v := Int64.toInt_inj.1 (by simpa using hint)
  rw [signed?_eq, signedByGroups?, groups, encodeSigned, hg, Option.map_some, hint', hused,
    Nat.zero_add]

end MachImage.Leb128
