import MachImage.Text.Utf8

/-!
# Names ended by a zero byte

A name is stored as text followed by a zero byte, or by the end of the field
that holds it.  `beforeZero` is the part that counts and `ofField` its text;
`terminated?` insists on the zero byte and says how many bytes it used.
-/

namespace MachImage.Name

/-- The bytes before the first zero byte, or all of them if there is none. -/
def beforeZero (bs : List UInt8) : List UInt8 := bs.takeWhile (· ≠ 0)

/-- The position of the first zero byte, or the length if there is none. -/
def zeroIndex (bs : List UInt8) : Nat := (beforeZero bs).length

/-- The name held in a field of bytes. -/
def ofField (bs : List UInt8) : String := Utf8.decodeLossy (beforeZero bs)

/-- A name with its zero byte: the name and the count of bytes up to and including the zero. -/
def terminated? (bs : List UInt8) : Option (String × Nat) :=
  if zeroIndex bs < bs.length then some (ofField bs, zeroIndex bs + 1) else none

theorem terminated?_eq_some_iff {bs : List UInt8} {name : String} {used : Nat} :
    terminated? bs = some (name, used) ↔
      zeroIndex bs < bs.length ∧ name = ofField bs ∧ used = zeroIndex bs + 1 := by
  rw [terminated?, Option.ite_none_right_eq_some, Option.some.injEq, Prod.mk.injEq,
    eq_comm (a := name), eq_comm (a := used)]

theorem zero_notMem_beforeZero (bs : List UInt8) : (0 : UInt8) ∉ beforeZero bs := by
  intro h
  have hall := List.all_takeWhile (l := bs) (p := fun b => decide (b ≠ 0))
  rw [List.all_eq_true] at hall
  simpa using hall 0 h

theorem zeroIndex_le_length (bs : List UInt8) : zeroIndex bs ≤ bs.length :=
  (List.takeWhile_sublist _).length_le

/-- Only the bytes before the first zero byte matter. -/
theorem beforeZero_append_zero {s : List UInt8} (h : (0 : UInt8) ∉ s) (rest : List UInt8) :
    beforeZero (s ++ 0 :: rest) = s := by
  induction s with
  | nil => simp [beforeZero]
  | cons b s ih =>
    have hb : b ≠ 0 := fun h0 => h (by simp [h0])
    have hs : (0 : UInt8) ∉ s := fun h0 => h (by simp [h0])
    have := ih hs
    simp_all [beforeZero]

theorem beforeZero_eq_self {s : List UInt8} (h : (0 : UInt8) ∉ s) : beforeZero s = s := by
  induction s with
  | nil => rfl
  | cons b s ih =>
    have hb : b ≠ 0 := fun h0 => h (by simp [h0])
    have hs : (0 : UInt8) ∉ s := fun h0 => h (by simp [h0])
    have := ih hs
    simp_all [beforeZero]

/-- There is a zero byte to find exactly when one is in the list. -/
theorem zeroIndex_lt_length_iff {bs : List UInt8} :
    zeroIndex bs < bs.length ↔ (0 : UInt8) ∈ bs := by
  constructor
  · intro hlt
    by_cases hmem : (0 : UInt8) ∈ bs
    · exact hmem
    · rw [zeroIndex, beforeZero_eq_self hmem] at hlt
      omega
  · intro hmem
    obtain ⟨s, t, rfl⟩ := List.append_of_mem hmem
    have := zeroIndex_le_length (s ++ 0 :: t)
    by_cases heq : zeroIndex (s ++ 0 :: t) = (s ++ 0 :: t).length
    · have hself : beforeZero (s ++ 0 :: t) = s ++ 0 :: t :=
        (List.takeWhile_sublist _).eq_of_length heq
      exact absurd (hself ▸ hmem) (zero_notMem_beforeZero _)
    · omega

end MachImage.Name
