import MachImage.Proofs.Leb128.Value

/-!
# Shortest encodings

A number is written with as few bytes as a reader takes it from
(`length_encodeUnsigned_le`, `length_encodeSigned_le`), and it is read back from
all of these bytes: with fewer of them there is no number, and what follows them
does not matter (`shortest_read_back`).
-/

namespace MachImage.Leb128

/-! ## Lengths -/

/-- A number of `k + 1` digits is written with no more bytes. -/
theorem length_encodeNat_le {n k : Nat} (h : n < 128 ^ (k + 1)) : (encodeNat n).length ≤ k + 1 := by
  induction k generalizing n with
  | zero =>
    rw [encodeNat, if_pos (by omega)]
    exact Nat.le_refl 1
  | succ k ih =>
    rw [encodeNat]
    split_ifs with hn
    · exact Nat.succ_le_succ (Nat.zero_le _)
    · rw [Nat.pow_succ] at h
      exact Nat.succ_le_succ (ih (by omega))

/-- A number of `k + 1` digits in two's complement is written with no more bytes. -/
theorem length_encodeInt_le {i : Int} {k : Nat} (hlow : -(64 * (128 ^ k : Nat) : Int) ≤ i)
    (hhigh : i < 64 * (128 ^ k : Nat)) : (encodeInt i).length ≤ k + 1 := by
  induction k generalizing i with
  | zero =>
    rw [encodeInt, if_pos (by omega)]
    exact Nat.le_refl 1
  | succ k ih =>
    rw [encodeInt]
    split_ifs with hi
    · exact Nat.succ_le_succ (Nat.zero_le _)
    · rw [Nat.pow_succ] at hlow hhigh
      exact Nat.succ_le_succ (ih (by omega) (by omega))

/-- No bytes from which a number is read are fewer than those of its encoding. -/
theorem length_encodeUnsigned_le {bs : List UInt8} {v : UInt64} {n : Nat}
    (h : unsigned? bs = some (v, n)) : (encodeUnsigned v).length ≤ n := by
  obtain ⟨hends, hv⟩ := unsigned?_eq_some_iff.1 h
  obtain ⟨b, -, -, -, -, hpos, hle⟩ := hends.exists_concat
  obtain ⟨k, rfl⟩ := Nat.exists_eq_add_one.2 hpos
  have hvalue := value_lt (bs.take (k + 1))
  rw [hends.length_take] at hvalue
  have hmod := Nat.mod_le (value (bs.take (k + 1))) (2 ^ 64)
  exact length_encodeNat_le (by omega)

/-- No bytes from which a signed number is read are fewer than those of its encoding. -/
theorem length_encodeSigned_le {bs : List UInt8} {v : Int64} {n : Nat}
    (h : signed? bs = some (v, n)) : (encodeSigned v).length ≤ n := by
  obtain ⟨hends, hv⟩ := signed?_eq_some_iff.1 h
  obtain ⟨b, htake, -, hb, hlength, hpos, hle⟩ := hends.exists_concat
  have hlow := v.le_toInt
  have hhigh := v.toInt_lt
  obtain ⟨k, rfl⟩ := Nat.exists_eq_add_one.2 hpos
  have hrange := signedValue_range (bs.take k) hb
  rw [Nat.add_sub_cancel] at htake hlength
  rw [← htake, hlength] at hrange
  by_cases hten : k = 9
  · subst hten
    exact length_encodeInt_le (by omega) (by omega)
  · obtain ⟨-, hfits⟩ := hends.fits (by omega)
    rw [Int.bmod_eq_of_le_mul_two (by omega) (by omega)] at hv
    exact length_encodeInt_le (by omega) (by omega)

/-! ## Beginnings -/

namespace EndsAtByte

variable {bs : List UInt8} {n m k : Nat}

/-- A number ends where it does, whatever follows. -/
theorem append (h : EndsAtByte bs n) (more : List UInt8) : EndsAtByte (bs ++ more) n := by
  obtain ⟨i, hi, hfind, rfl⟩ := h
  exact ⟨i, hi, by rw [List.findIdx?_append, hfind]; rfl, rfl⟩

/-- A number does not end before it ends. -/
theorem not_take (h : EndsAtByte bs n) (hk : k < n) : ¬ EndsAtByte (bs.take k) m := by
  intro hm
  have hall := hm.append (bs.drop k)
  rw [List.take_append_drop] at hall
  obtain rfl := h.unique hall
  have hlength := hm.length_take
  rw [List.take_take, List.length_take] at hlength
  omega

end EndsAtByte

/-- **Shortest encodings.**  A number is read back from its encoding, of which the reader uses all
the bytes, whatever follows them; no beginning of the encoding is a number, and no other bytes from
which the number is read are fewer. -/
theorem shortest_read_back :
    (∀ v : UInt64,
      (∀ rest, unsigned? (encodeUnsigned v ++ rest) = some (v, (encodeUnsigned v).length)) ∧
      (∀ k < (encodeUnsigned v).length, unsigned? ((encodeUnsigned v).take k) = none) ∧
      ∀ bs n, unsigned? bs = some (v, n) → (encodeUnsigned v).length ≤ n) ∧
    ∀ v : Int64,
      (∀ rest, signed? (encodeSigned v ++ rest) = some (v, (encodeSigned v).length)) ∧
      (∀ k < (encodeSigned v).length, signed? ((encodeSigned v).take k) = none) ∧
      ∀ bs n, signed? bs = some (v, n) → (encodeSigned v).length ≤ n := by
  constructor
  · intro v
    refine ⟨unsigned?_encodeUnsigned v, fun k hk => ?_, fun bs n => length_encodeUnsigned_le⟩
    have hread := unsigned?_encodeUnsigned v []
    rw [List.append_nil] at hread
    have hends := exists_unsigned?_iff.1 ⟨v, hread⟩
    refine Option.eq_none_iff_forall_ne_some.2 fun p hp => ?_
    exact hends.not_take hk (exists_unsigned?_iff.1 ⟨p.1, hp⟩)
  · intro v
    refine ⟨signed?_encodeSigned v, fun k hk => ?_, fun bs n => length_encodeSigned_le⟩
    have hread := signed?_encodeSigned v []
    rw [List.append_nil] at hread
    have hends := exists_signed?_iff.1 ⟨v, hread⟩
    refine Option.eq_none_iff_forall_ne_some.2 fun p hp => ?_
    exact hends.not_take hk (exists_signed?_iff.1 ⟨p.1, hp⟩)

/-- The least signed number is written with ten bytes, of which nine are not enough. -/
theorem least_read_back :
    (encodeSigned Int64.minValue).length = 10 ∧
      signed? (encodeSigned Int64.minValue ++ [0x90]) = some (Int64.minValue, 10) ∧
      signed? ((encodeSigned Int64.minValue).take 9) = none := by
  have hlength : (encodeSigned Int64.minValue).length = 10 := by
    simp [encodeSigned, encodeInt]
  obtain ⟨-, hsigned⟩ := shortest_read_back
  obtain ⟨hwhole, hpart, -⟩ := hsigned Int64.minValue
  refine ⟨hlength, ?_, hpart 9 (by omega)⟩
  rw [hwhole, hlength]

end MachImage.Leb128
