import MachImage.Proofs.Leb128

/-!
# The value of a number

The groups of a number are the digits of its value in base 128, the least
significant first (`value`), or its digits in two's complement (`signedValue`).
Both values are without bounds, while a reader has 64 bits.

A reader finds a number where its bytes say: it ends at the first byte without
its top bit, if that is one of the first ten (`EndsAtByte`).  What is read is
the value reduced to 64 bits (`unsigned?_eq_some_iff`, `signed?_eq_some_iff`).
Nine bytes always fit; of the tenth only the lowest bit is kept, so that the
value of ten bytes is read only if nothing of the tenth is lost
(`exact_iff_tenth_byte`).
-/

namespace MachImage.Leb128

/-! ## Digits of base 128 -/

/-- The number whose base-128 digits, least significant first, are the groups of the bytes. -/
def value : List UInt8 → Nat
  | [] => 0
  | b :: bs => b.toNat % 128 + 128 * value bs

/-- The number that the groups of the bytes are in two's complement: bit 6 of the last byte is the
sign. -/
def signedValue (bs : List UInt8) : Int :=
  if bs.getLast?.getD 0 &&& 0x40 ≠ 0 then value bs - (128 ^ bs.length : Nat) else value bs

theorem value_lt (bs : List UInt8) : value bs < 128 ^ bs.length := by
  induction bs with
  | nil => simp [value]
  | cons b bs ih =>
    rw [value, List.length_cons, Nat.pow_succ]
    omega

/-- One more byte is one more digit above the others. -/
theorem value_concat (bs : List UInt8) (b : UInt8) :
    value (bs ++ [b]) = value bs + 128 ^ bs.length * (b.toNat % 128) := by
  induction bs with
  | nil => simp [value]
  | cons c bs ih =>
    rw [List.cons_append, value, value, ih, List.length_cons, Nat.pow_succ]
    ring

/-- The last digit of a signed number is the one that is signed. -/
theorem signedValue_concat (bs : List UInt8) {b : UInt8} (hb : b < 0x80) :
    signedValue (bs ++ [b]) = value bs +
      (128 ^ bs.length : Nat) * if 64 ≤ b.toNat then (b.toNat : Int) - 128 else b.toNat := by
  rw [lt_0x80_iff] at hb
  have hsign : b &&& 0x40 ≠ 0 ↔ 64 ≤ b.toNat := and_0x40_ne_zero_iff hb
  rw [signedValue, List.getLast?_concat, Option.getD_some, value_concat, Nat.mod_eq_of_lt hb,
    List.length_append, List.length_singleton, Nat.pow_succ]
  by_cases hneg : 64 ≤ b.toNat
  · rw [if_pos (hsign.2 hneg), if_pos hneg]
    push_cast
    ring
  · rw [if_neg fun h => hneg (hsign.1 h), if_neg hneg]
    push_cast
    rfl

/-- A signed number of so many digits lies between half the count of these numbers and its
negative. -/
theorem signedValue_range (bs : List UInt8) {b : UInt8} (hb : b < 0x80) :
    -(64 * (128 ^ bs.length : Nat) : Int) ≤ signedValue (bs ++ [b]) ∧
      signedValue (bs ++ [b]) < 64 * (128 ^ bs.length : Nat) := by
  have hsmall := (lt_0x80_iff b).1 hb
  have hlow := value_lt bs
  rw [signedValue_concat bs hb]
  generalize hd : (if 64 ≤ b.toNat then (b.toNat : Int) - 128 else b.toNat) = d
  generalize 128 ^ bs.length = p at hlow ⊢
  have hdigit : -64 ≤ d ∧ d ≤ 63 := by
    split_ifs at hd <;> omega
  have hlower : (p : Int) * -64 ≤ p * d := Int.mul_le_mul_of_nonneg_left hdigit.1 (by omega)
  have hupper : (p : Int) * d ≤ p * 63 := Int.mul_le_mul_of_nonneg_left hdigit.2 (by omega)
  omega

/-! ## Where a number ends -/

theorem findIdx?_of_lt {b : UInt8} (h : b < 0x80) (bs : List UInt8) :
    (b :: bs).findIdx? (· < 0x80) = some 0 := by
  rw [List.findIdx?_cons, if_pos (decide_eq_true h)]

theorem findIdx?_of_not_lt {b : UInt8} (h : ¬ b < 0x80) (bs : List UInt8) :
    (b :: bs).findIdx? (· < 0x80) = (bs.findIdx? (· < 0x80)).map (· + 1) := by
  rw [List.findIdx?_cons, if_neg (by simpa using h)]

/-- The first byte without its top bit is the `n`-th, and among the ten that a reader of 64 bits
takes. -/
def EndsAtByte (bs : List UInt8) (n : Nat) : Prop :=
  ∃ i < 10, bs.findIdx? (· < 0x80) = some i ∧ n = i + 1

namespace EndsAtByte

variable {bs : List UInt8} {n m : Nat}

theorem unique (hn : EndsAtByte bs n) (hm : EndsAtByte bs m) : n = m := by
  obtain ⟨i, -, hi, rfl⟩ := hn
  obtain ⟨j, -, hj, rfl⟩ := hm
  rw [hi] at hj
  cases hj
  rfl

/-- The bytes of a number are those before the last one, and the last one. -/
theorem exists_concat (h : EndsAtByte bs n) :
    ∃ b, bs.take n = bs.take (n - 1) ++ [b] ∧ bs[n - 1]? = some b ∧ b < 0x80 ∧
      (bs.take (n - 1)).length = n - 1 ∧ 0 < n ∧ n ≤ 10 := by
  obtain ⟨i, hi, hfind, rfl⟩ := h
  obtain ⟨hlt, hb, -⟩ := List.findIdx?_eq_some_iff_getElem.1 hfind
  have hget : bs[i]? = some bs[i] := List.getElem?_eq_getElem hlt
  refine ⟨bs[i], ?_, hget, of_decide_eq_true hb, ?_, Nat.succ_pos i, hi⟩
  · rw [List.take_add_one, hget]
    rfl
  · rw [List.length_take]
    omega

theorem length_take (h : EndsAtByte bs n) : (bs.take n).length = n := by
  obtain ⟨b, htake, -, -, hlength, hpos, -⟩ := h.exists_concat
  rw [htake, List.length_append, hlength, List.length_singleton]
  omega

end EndsAtByte

/-! ## What is read -/

/-- A group put above those that are there, its bits beyond the 64th lost. -/
theorem toNat_or_payload_mod {bits : UInt64} {used : Nat} (b : UInt8) (hused : 7 * used < 64)
    (hbits : bits.toNat < 2 ^ (7 * used)) :
    (bits ||| (payload b <<< UInt64.ofNat (7 * used))).toNat
      = (bits.toNat + b.toNat % 128 * 2 ^ (7 * used)) % 2 ^ 64 := by
  have hsum := toNat_or_shiftLeft (payload b) hused hbits
  have hfits := (bits ||| (payload b <<< UInt64.ofNat (7 * used))).toNat_lt
  have hsplit : 2 ^ 64 = 2 ^ (7 * used) * 2 ^ (64 - 7 * used) := by
    rw [← Nat.pow_add]; congr 1; omega
  have hgroup : 2 ^ (7 * used) * (b.toNat % 128 % 2 ^ (64 - 7 * used))
      = b.toNat % 128 * 2 ^ (7 * used) % 2 ^ 64 := by
    rw [hsplit, ← Nat.mul_mod_mul_left, Nat.mul_comm (b.toNat % 128)]
  rw [toNat_payload, hgroup] at hsum
  rw [← Nat.add_mod_mod, ← hsum, Nat.mod_eq_of_lt hfits]

/-- The groups from a byte on are those up to the first byte without its top bit, and their bits
are the value of these bytes above the bits that were there. -/
theorem groupsFrom_eq_some {used : Nat} {bits : UInt64} {bs : List UInt8} {g : Groups}
    (hbits : bits.toNat < 2 ^ (7 * used)) (h : groupsFrom used bits bs = some g) :
    ∃ i, bs.findIdx? (· < 0x80) = some i ∧ g.used = used + (i + 1) ∧ g.used ≤ 10 ∧
      (bs.take (i + 1)).getLast? = some g.last ∧
      g.bits.toNat = (bits.toNat + value (bs.take (i + 1)) * 2 ^ (7 * used)) % 2 ^ 64 := by
  induction bs generalizing used bits with
  | nil => cases h
  | cons b bs ih =>
    by_cases hused : 64 ≤ 7 * used
    · rw [groupsFrom, if_pos hused] at h
      cases h
    have hlt : 7 * used < 64 := Nat.lt_of_not_le hused
    have hsum := toNat_or_payload_mod b hlt hbits
    rw [groupsFrom_cons hlt] at h
    by_cases hlast : b < 0x80
    · rw [if_pos hlast] at h
      cases h
      refine ⟨0, findIdx?_of_lt hlast bs, rfl, Nat.succ_le_of_lt (by omega), rfl, ?_⟩
      rw [hsum, List.take_succ_cons, List.take_zero, value, value, Nat.mul_zero, Nat.add_zero]
    · rw [if_neg hlast] at h
      have hpow := two_pow_seven_mul_succ used
      have hgroup : b.toNat % 128 * 2 ^ (7 * used) ≤ 127 * 2 ^ (7 * used) :=
        Nat.mul_le_mul_right _ (by omega)
      have hbits' : (bits ||| (payload b <<< UInt64.ofNat (7 * used))).toNat
          < 2 ^ (7 * (used + 1)) := by
        have hle := Nat.mod_le (bits.toNat + b.toNat % 128 * 2 ^ (7 * used)) (2 ^ 64)
        omega
      obtain ⟨i, hfind, hg, hle, hgetLast, hvalue⟩ := ih hbits' h
      refine ⟨i + 1, by rw [findIdx?_of_not_lt hlast, hfind]; rfl, by omega, hle, ?_, ?_⟩
      · rw [List.take_succ_cons, List.getLast?_cons, hgetLast, Option.getD_some]
      · rw [hvalue, hsum, hpow, Nat.mod_add_mod, List.take_succ_cons, value]
        congr 1
        ring

/-- There are groups if the first byte without its top bit comes soon enough. -/
theorem exists_groupsFrom {used i : Nat} (bits : UInt64) {bs : List UInt8}
    (h : bs.findIdx? (· < 0x80) = some i) (hle : used + i < 10) :
    ∃ g, groupsFrom used bits bs = some g := by
  induction bs generalizing used bits i with
  | nil => cases h
  | cons b bs ih =>
    rw [groupsFrom_cons (by omega)]
    by_cases hlast : b < 0x80
    · exact ⟨_, if_pos hlast⟩
    · rw [if_neg hlast]
      rw [findIdx?_of_not_lt hlast, Option.map_eq_some_iff] at h
      obtain ⟨j, hj, rfl⟩ := h
      exact ih _ hj (by omega)

/-- The groups at the front of a list are those of a number that ends in time. -/
theorem groups_eq_some {bs : List UInt8} {g : Groups} (h : groups bs = some g) :
    EndsAtByte bs g.used ∧ (bs.take g.used).getLast? = some g.last ∧
      g.bits.toNat = value (bs.take g.used) % 2 ^ 64 := by
  obtain ⟨i, hfind, hused, hle, hlast, hbits⟩ := groupsFrom_eq_some (by decide) h
  rw [Nat.zero_add] at hused
  rw [hused]
  refine ⟨⟨i, by omega, hfind, rfl⟩, hlast, ?_⟩
  simpa using hbits

theorem exists_groups {bs : List UInt8} {n : Nat} (h : EndsAtByte bs n) :
    ∃ g, groups bs = some g ∧ g.used = n := by
  obtain ⟨i, hi, hfind, rfl⟩ := h
  obtain ⟨g, hg⟩ := exists_groupsFrom 0 hfind (by rwa [Nat.zero_add])
  exact ⟨g, hg, (groups_eq_some hg).1.unique ⟨i, hi, hfind, rfl⟩⟩

/-- An unsigned number is the value of the bytes that end in time, reduced to 64 bits. -/
theorem unsigned?_eq_some_iff {bs : List UInt8} {v : UInt64} {n : Nat} :
    unsigned? bs = some (v, n) ↔ EndsAtByte bs n ∧ v.toNat = value (bs.take n) % 2 ^ 64 := by
  rw [unsigned?_eq, unsignedByGroups?, Option.map_eq_some_iff]
  constructor
  · rintro ⟨g, hg, hpair⟩
    cases hpair
    obtain ⟨hends, -, hbits⟩ := groups_eq_some hg
    exact ⟨hends, hbits⟩
  · rintro ⟨hends, hv⟩
    obtain ⟨g, hg, rfl⟩ := exists_groups hends
    obtain ⟨-, -, hbits⟩ := groups_eq_some hg
    have hword : g.bits = v := UInt64.toNat_inj.1 (hbits.trans hv.symm)
    exact ⟨g, hg, by rw [hword]⟩

/-- Up to nine groups a signed number is read as it is. -/
theorem toInt_signExtended_eq_signedValue {bs : List UInt8} {g : Groups} (h : groups bs = some g)
    (hlt : g.used < 10) : g.signExtended.toInt64.toInt = signedValue (bs.take g.used) := by
  obtain ⟨hends, hlast, hbits⟩ := groups_eq_some h
  obtain ⟨b, htake, -, hb, hlength, hpos, -⟩ := hends.exists_concat
  rw [htake, List.getLast?_concat, Option.some.injEq] at hlast
  have hpow : 2 ^ (7 * g.used) = 128 ^ (g.used - 1) * 128 := by
    rw [Nat.pow_mul, ← Nat.pow_succ, Nat.succ_eq_add_one, Nat.sub_add_cancel hpos]
  have hle : 2 ^ (7 * g.used) ≤ 2 ^ 63 := Nat.pow_le_pow_right (by decide) (by omega)
  have hsmall := (lt_0x80_iff b).1 hb
  have hvalue := value_concat (bs.take (g.used - 1)) b
  have hfits := value_lt (bs.take (g.used - 1) ++ [b])
  rw [List.length_append, List.length_singleton, hlength, Nat.pow_succ] at hfits
  rw [htake, Nat.mod_eq_of_lt (by omega)] at hbits
  obtain ⟨bits, used, last⟩ := g
  dsimp only at *
  subst hlast
  rw [toInt_signExtended (by omega) (by omega) hsmall, hbits, htake, signedValue_concat _ hb,
    hvalue, Nat.mod_eq_of_lt hsmall, hlength, hpow]
  split_ifs <;> push_cast <;> ring

/-- The signed number of ten groups is that of their bits, which may lack some of the tenth. -/
theorem dvd_signExtended_sub_signedValue {bs : List UInt8} {g : Groups} (h : groups bs = some g)
    (heq : g.used = 10) :
    ((2 ^ 64 : Nat) : Int) ∣ g.signExtended.toInt64.toInt - signedValue (bs.take g.used) := by
  obtain ⟨hends, -, hbits⟩ := groups_eq_some h
  have hten : (bs.take g.used).length = 10 := by rw [hends.length_take, heq]
  have hword : g.signExtended = g.bits := if_neg fun hshort => by omega
  rw [toInt_toInt64, hword, hbits, signedValue, hten]
  split_ifs <;> push_cast <;> omega

/-- The signed number of some groups is their signed value reduced to 64 bits. -/
theorem toInt_signExtended_eq_bmod {bs : List UInt8} {g : Groups} (h : groups bs = some g) :
    g.signExtended.toInt64.toInt = (signedValue (bs.take g.used)).bmod (2 ^ 64) := by
  have hlow := g.signExtended.toInt64.le_toInt
  have hhigh := g.signExtended.toInt64.toInt_lt
  symm
  rw [Int.bmod_eq_iff (by decide)]
  refine ⟨by omega, by omega, ?_⟩
  obtain ⟨i, hi, -, hused⟩ := (groups_eq_some h).1
  rcases Nat.lt_or_ge g.used 10 with hlt | hge
  · rw [toInt_signExtended_eq_signedValue h hlt, Int.sub_self]
    exact Int.dvd_zero _
  · exact dvd_signExtended_sub_signedValue h (by omega)

/-- A signed number is the signed value of the bytes that end in time, reduced to 64 bits. -/
theorem signed?_eq_some_iff {bs : List UInt8} {v : Int64} {n : Nat} :
    signed? bs = some (v, n) ↔
      EndsAtByte bs n ∧ v.toInt = (signedValue (bs.take n)).bmod (2 ^ 64) := by
  rw [signed?_eq, signedByGroups?, Option.map_eq_some_iff]
  constructor
  · rintro ⟨g, hg, hpair⟩
    cases hpair
    exact ⟨(groups_eq_some hg).1, toInt_signExtended_eq_bmod hg⟩
  · rintro ⟨hends, hv⟩
    obtain ⟨g, hg, rfl⟩ := exists_groups hends
    have hword : g.signExtended.toInt64 = v :=
      Int64.toInt_inj.1 ((toInt_signExtended_eq_bmod hg).trans hv.symm)
    exact ⟨g, hg, by rw [hword]⟩

/-- An unsigned number is read from just the bytes that end in time. -/
theorem exists_unsigned?_iff {bs : List UInt8} {n : Nat} :
    (∃ v, unsigned? bs = some (v, n)) ↔ EndsAtByte bs n := by
  constructor
  · rintro ⟨v, hv⟩
    exact (unsigned?_eq_some_iff.1 hv).1
  · intro hends
    exact ⟨_, unsigned?_eq_some_iff.2 ⟨hends, UInt64.toNat_ofNat'⟩⟩

/-- A signed number is read from just the bytes that end in time. -/
theorem exists_signed?_iff {bs : List UInt8} {n : Nat} :
    (∃ v, signed? bs = some (v, n)) ↔ EndsAtByte bs n := by
  constructor
  · rintro ⟨v, hv⟩
    exact (signed?_eq_some_iff.1 hv).1
  · intro hends
    exact ⟨_, signed?_eq_some_iff.2 ⟨hends, Int64.toInt_ofInt⟩⟩

/-- **Shortcuts and groups.**  The shortcuts read what the groups say.  A number of either kind is
read from the first `n` bytes exactly if it ends at the `n`-th, and that is one of the first ten; an
unsigned number is the value of these bytes reduced to 64 bits. -/
theorem shortcuts_and_groups (bs : List UInt8) :
    unsigned? bs = unsignedByGroups? bs ∧ signed? bs = signedByGroups? bs ∧
      (∀ n, (∃ v, unsigned? bs = some (v, n)) ↔ EndsAtByte bs n) ∧
      (∀ n, (∃ v, signed? bs = some (v, n)) ↔ EndsAtByte bs n) ∧
      ∀ v n, unsigned? bs = some (v, n) ↔
        EndsAtByte bs n ∧ v.toNat = value (bs.take n) % 2 ^ 64 :=
  ⟨unsigned?_eq bs, signed?_eq bs, fun _ => exists_unsigned?_iff, fun _ => exists_signed?_iff,
    fun _ _ => unsigned?_eq_some_iff⟩

/-! ## What is lost -/

/-- Up to nine bytes the value fits into 64 bits. -/
theorem EndsAtByte.fits {bs : List UInt8} {n : Nat} (h : EndsAtByte bs n) (hn : n ≠ 10) :
    value (bs.take n) < 2 ^ 64 ∧
      -2 ^ 63 ≤ signedValue (bs.take n) ∧ signedValue (bs.take n) < 2 ^ 63 := by
  obtain ⟨b, htake, -, hb, hlength, hpos, hle⟩ := h.exists_concat
  have hvalue := value_lt (bs.take n)
  have hrange := signedValue_range (bs.take (n - 1)) hb
  have hpow : 128 ^ (n - 1) ≤ 128 ^ 8 := Nat.pow_le_pow_right (by decide) (by omega)
  have hsucc : 128 ^ n = 128 ^ (n - 1) * 128 := by
    rw [← Nat.pow_succ, Nat.succ_eq_add_one, Nat.sub_add_cancel hpos]
  rw [h.length_take, hsucc] at hvalue
  rw [← htake, hlength] at hrange
  omega

/-- The tenth byte of a number holds its bits from the 64th on. -/
theorem EndsAtByte.tenth {bs : List UInt8} (h : EndsAtByte bs 10) :
    ∃ low < 2 ^ 63, ∃ b : UInt8, bs[9]? = some b ∧ b.toNat < 128 ∧
      value (bs.take 10) = low + 2 ^ 63 * b.toNat ∧
      signedValue (bs.take 10)
        = low + 2 ^ 63 * if 64 ≤ b.toNat then (b.toNat : Int) - 128 else b.toNat := by
  obtain ⟨b, htake, hget, hb, hlength, -, -⟩ := h.exists_concat
  have hpow : 128 ^ (10 - 1) = 2 ^ 63 := rfl
  have hsmall := (lt_0x80_iff b).1 hb
  have hlow := value_lt (bs.take (10 - 1))
  have hvalue := value_concat (bs.take (10 - 1)) b
  have hsigned := signedValue_concat (bs.take (10 - 1)) hb
  rw [hlength, hpow] at hlow hvalue hsigned
  rw [Nat.mod_eq_of_lt hsmall] at hvalue
  exact ⟨_, hlow, b, hget, hsmall, by rw [htake, hvalue], by rw [htake, hsigned]; rfl⟩

/-- **What is lost of a number.**  A number is read as its value reduced to 64 bits.  That is the
value itself unless it has ten bytes and the tenth holds more than the bit that is left, which for a
signed number is its sign. -/
theorem exact_iff_tenth_byte (bs : List UInt8) (n : Nat) :
    (∀ v, unsigned? bs = some (v, n) →
      v.toNat = value (bs.take n) % 2 ^ 64 ∧
        (v.toNat = value (bs.take n) ↔ (n = 10 → bs[9]? = some 0x00 ∨ bs[9]? = some 0x01))) ∧
      ∀ v, signed? bs = some (v, n) →
        v.toInt = (signedValue (bs.take n)).bmod (2 ^ 64) ∧
          (v.toInt = signedValue (bs.take n) ↔
            (n = 10 → bs[9]? = some 0x00 ∨ bs[9]? = some 0x7F)) := by
  constructor
  · intro v hread
    obtain ⟨hends, hv⟩ := unsigned?_eq_some_iff.1 hread
    refine ⟨hv, ?_⟩
    by_cases hn : n = 10
    · subst hn
      obtain ⟨low, hlow, b, hget, hsmall, hvalue, -⟩ := hends.tenth
      have hzero : b = 0x00 ↔ b.toNat = 0 := UInt8.toNat_inj.symm
      have hone : b = 0x01 ↔ b.toNat = 1 := UInt8.toNat_inj.symm
      rw [hget, Option.some_inj, Option.some_inj, hzero, hone]
      omega
    · have hfits := hends.fits hn
      omega
  · intro v hread
    obtain ⟨hends, hv⟩ := signed?_eq_some_iff.1 hread
    refine ⟨hv, ?_⟩
    by_cases hn : n = 10
    · subst hn
      obtain ⟨low, hlow, b, hget, hsmall, -, hvalue⟩ := hends.tenth
      have hzero : b = 0x00 ↔ b.toNat = 0 := UInt8.toNat_inj.symm
      have hones : b = 0x7F ↔ b.toNat = 127 := UInt8.toNat_inj.symm
      rw [hget, Option.some_inj, Option.some_inj, hzero, hones, hv]
      rw [Int.bmod_eq_iff (by decide)]
      split_ifs at hvalue <;> omega
    · have hfits := hends.fits hn
      have hexact : v.toInt = signedValue (bs.take n) := by
        rw [hv, Int.bmod_eq_of_le_mul_two (by omega) (by omega)]
      exact iff_of_true hexact fun h => absurd h hn

/-- Nine bytes that are the same, and a tenth. -/
def tenBytes (b last : UInt8) : List UInt8 := List.replicate 9 b ++ [last]

/-- The greatest unsigned number and the least signed one need what is left of the tenth byte. -/
theorem extremes_exact :
    (unsigned? (tenBytes 0xFF 0x01) = some (0xFFFFFFFFFFFFFFFF, 10) ∧
      (0xFFFFFFFFFFFFFFFF : UInt64).toNat = value ((tenBytes 0xFF 0x01).take 10)) ∧
    signed? (tenBytes 0x80 0x7F) = some (Int64.minValue, 10) ∧
      Int64.minValue.toInt = signedValue ((tenBytes 0x80 0x7F).take 10) := by
  have hgreatest := (exact_iff_tenth_byte (tenBytes 0xFF 0x01) 10).1 _ rfl
  have hleast := (exact_iff_tenth_byte (tenBytes 0x80 0x7F) 10).2 _ rfl
  exact ⟨⟨rfl, hgreatest.2.2 fun _ => Or.inr rfl⟩, rfl, hleast.2.2 fun _ => Or.inr rfl⟩

/-- The tenth byte is cut where its bits do not fit: of seventy ones an unsigned number loses six,
and a signed number that is too large becomes negative. -/
theorem tenth_byte_cut :
    (unsigned? (tenBytes 0xFF 0x7F) = some (0xFFFFFFFFFFFFFFFF, 10) ∧
      value ((tenBytes 0xFF 0x7F).take 10) = 2 ^ 70 - 1) ∧
    (signed? (tenBytes 0x80 0x01) = some (Int64.minValue, 10) ∧
      signedValue ((tenBytes 0x80 0x01).take 10) = 2 ^ 63) ∧
    (¬ ∀ bs v n, unsigned? bs = some (v, n) → v.toNat = value (bs.take n)) ∧
      ¬ ∀ bs v n, signed? bs = some (v, n) → v.toInt = signedValue (bs.take n) := by
  have hvalue : value ((tenBytes 0xFF 0x7F).take 10) = 2 ^ 70 - 1 := by decide
  have hsigned : signedValue ((tenBytes 0x80 0x01).take 10) = 2 ^ 63 := by decide
  refine ⟨⟨rfl, hvalue⟩, ⟨rfl, hsigned⟩, fun h => ?_, fun h => ?_⟩
  · have hexact := h (tenBytes 0xFF 0x7F) 0xFFFFFFFFFFFFFFFF 10 rfl
    rw [hvalue] at hexact
    exact absurd hexact (by decide)
  · have hexact := h (tenBytes 0x80 0x01) Int64.minValue 10 rfl
    rw [hsigned] at hexact
    exact absurd hexact (by decide)

end MachImage.Leb128
