import MachImage.Text.Name
import Mathlib.Tactic.Common

/-!
# Names in UTF-8 read back

`decodeLossy_toUTF8`: the UTF-8 bytes of a text are read as that text, so
replacement touches nothing that is well formed.  `terminated?_toUTF8` is the
same for a name that ends in a zero byte: a text without the zero character is
read back, whatever follows its zero byte, and exactly its bytes and that one
are used.

The decoder is followed byte by byte through the four lengths that a character
may have; the leading byte fixes the range of the next one, and the ranges are
those of the characters that exist.

`zero_notMem_decodeLossy`: only a zero byte is read as the zero character, also
where bytes are replaced.  The invariant is that whatever a pending character
may turn out to be exists and is not the zero character (`Pending.Proper`).
-/

namespace MachImage.Utf8

/-! ## Leading bytes -/

theorem decodeFrom_cons (state : Option Pending) (b : UInt8) (bs : List UInt8) :
    decodeFrom state (b :: bs) = (step state b).1 ++ decodeFrom (step state b).2 bs := by
  cases state <;> rfl

theorem start_one {b : UInt8} (h : b.toNat < 0x80) : start b = ([Char.ofNat b.toNat], none) := by
  rw [start, if_pos h]

theorem start_two {b : UInt8} (hlow : 0xC2 ≤ b.toNat) (hhigh : b.toNat < 0xE0) :
    start b = ([], some { missing := 1, bits := b.toNat - 0xC0 }) := by
  rw [start, if_neg (by omega), if_neg (by omega), if_pos hhigh]

/-- The byte after `0xE0` is bounded below, so that no shorter form is accepted, and the one after
`0xED` above, so that no surrogate is. -/
theorem start_three {b : UInt8} (hlow : 0xE0 ≤ b.toNat) (hhigh : b.toNat < 0xF0) :
    start b = ([], some
      { missing := 2, bits := b.toNat - 0xE0, low := if b.toNat = 0xE0 then 0xA0 else 0x80,
        high := if b.toNat = 0xED then 0x9F else 0xBF }) := by
  rw [start, if_neg (by omega), if_neg (by omega), if_neg (by omega)]
  by_cases hE0 : b.toNat = 0xE0
  · simp [hE0]
  · by_cases hED : b.toNat = 0xED
    · simp [hED]
    · simp [hE0, hED, hhigh]

/-- The byte after `0xF0` is bounded below, so that no shorter form is accepted, and the one after
`0xF4` above, so that no number beyond the last character is. -/
theorem start_four {b : UInt8} (hlow : 0xF0 ≤ b.toNat) (hhigh : b.toNat ≤ 0xF4) :
    start b = ([], some
      { missing := 3, bits := b.toNat - 0xF0, low := if b.toNat = 0xF0 then 0x90 else 0x80,
        high := if b.toNat = 0xF4 then 0x8F else 0xBF }) := by
  rw [start, if_neg (by omega), if_neg (by omega), if_neg (by omega), if_neg (by omega),
    if_neg (by omega), if_neg (by omega)]
  by_cases hF0 : b.toNat = 0xF0
  · simp [hF0]
  · by_cases hF4 : b.toNat = 0xF4
    · simp [hF4]
    · simp [hF0, hF4, show b.toNat < 0xF4 by omega]

theorem start_other {b : UInt8} (h : 0x80 ≤ b.toNat ∧ b.toNat < 0xC2 ∨ 0xF4 < b.toNat) :
    start b = ([replacement], none) := by
  rw [start, if_neg (by omega)]
  rcases h with ⟨-, hlt⟩ | hgt
  · rw [if_pos hlt]
  · rw [if_neg (by omega), if_neg (by omega), if_neg (by omega), if_neg (by omega),
      if_neg (by omega), if_neg (by omega), if_neg (by omega), if_neg (by omega)]

/-! ## Continuation bytes -/

section Continuation

variable {missing bits low high : Nat} {b : UInt8} (bs : List UInt8)

/-- A byte that is not the last of a character adds six bits. -/
theorem decodeFrom_middle (hlow : low ≤ b.toNat) (hhigh : b.toNat ≤ high) :
    decodeFrom (some ⟨missing + 2, bits, low, high⟩) (b :: bs)
      = decodeFrom (some ⟨missing + 1, bits * 64 + (b.toNat - 0x80), 0x80, 0xBF⟩) bs := by
  rw [decodeFrom_cons, step, if_pos ⟨hlow, hhigh⟩, if_neg (by simp)]
  rfl

/-- The last byte of a character completes it. -/
theorem decodeFrom_last (hlow : low ≤ b.toNat) (hhigh : b.toNat ≤ high) :
    decodeFrom (some ⟨1, bits, low, high⟩) (b :: bs)
      = Char.ofNat (bits * 64 + (b.toNat - 0x80)) :: decodeFrom none bs := by
  rw [decodeFrom_cons, step, if_pos ⟨hlow, hhigh⟩, if_pos rfl]
  rfl

end Continuation

/-! ## Characters -/

theorem toNat_ofNat {n : Nat} (h : n < 256) : (UInt8.ofNat n).toNat = n := by
  rw [UInt8.toNat_ofNat', Nat.mod_eq_of_lt h]

/-- A continuation byte holds the low six bits of a number. -/
theorem toNat_tail (n : Nat) : (UInt8.ofNat (n % 0x40 + 0x80)).toNat = n % 0x40 + 0x80 :=
  toNat_ofNat (by omega)

theorem decodeFrom_two {v : Nat} (rest : List UInt8) (hlow : 0x80 ≤ v) (hhigh : v ≤ 0x7FF) :
    decodeFrom none (UInt8.ofNat (v / 64 % 0x20 + 0xC0) :: UInt8.ofNat (v % 0x40 + 0x80) :: rest)
      = Char.ofNat v :: decodeFrom none rest := by
  have hlead := toNat_ofNat (n := v / 64 % 0x20 + 0xC0) (by omega)
  have htail := toNat_tail v
  have hv : (v / 64 % 0x20 + 0xC0 - 0xC0) * 64 + (v % 0x40 + 0x80 - 0x80) = v := by omega
  rw [decodeFrom_cons, step, start_two (by omega) (by omega), List.nil_append,
    decodeFrom_last _ (by omega) (by omega), hlead, htail, hv]

theorem decodeFrom_three {v : Nat} (rest : List UInt8) (hlow : 0x800 ≤ v) (hhigh : v ≤ 0xFFFF)
    (hvalid : v < 0xD800 ∨ 0xE000 ≤ v) :
    decodeFrom none (UInt8.ofNat (v / 4096 % 0x10 + 0xE0) ::
        UInt8.ofNat (v / 64 % 0x40 + 0x80) :: UInt8.ofNat (v % 0x40 + 0x80) :: rest)
      = Char.ofNat v :: decodeFrom none rest := by
  have hlead := toNat_ofNat (n := v / 4096 % 0x10 + 0xE0) (by omega)
  have hmid := toNat_tail (v / 64)
  have htail := toNat_tail v
  have hv : ((v / 4096 % 0x10 + 0xE0 - 0xE0) * 64 + (v / 64 % 0x40 + 0x80 - 0x80)) * 64
      + (v % 0x40 + 0x80 - 0x80) = v := by omega
  rw [decodeFrom_cons, step, start_three (by omega) (by omega), List.nil_append,
    decodeFrom_middle _ (by split <;> omega) (by split <;> omega),
    decodeFrom_last _ (by omega) (by omega), hlead, hmid, htail, hv]

theorem decodeFrom_four {v : Nat} (rest : List UInt8) (hlow : 0x10000 ≤ v) (hhigh : v < 0x110000) :
    decodeFrom none (UInt8.ofNat (v / 262144 % 0x08 + 0xF0) ::
        UInt8.ofNat (v / 4096 % 0x40 + 0x80) :: UInt8.ofNat (v / 64 % 0x40 + 0x80) ::
        UInt8.ofNat (v % 0x40 + 0x80) :: rest)
      = Char.ofNat v :: decodeFrom none rest := by
  have hlead := toNat_ofNat (n := v / 262144 % 0x08 + 0xF0) (by omega)
  have hmid := toNat_tail (v / 4096)
  have hmid' := toNat_tail (v / 64)
  have htail := toNat_tail v
  have hv : (((v / 262144 % 0x08 + 0xF0 - 0xF0) * 64 + (v / 4096 % 0x40 + 0x80 - 0x80)) * 64
      + (v / 64 % 0x40 + 0x80 - 0x80)) * 64 + (v % 0x40 + 0x80 - 0x80) = v := by omega
  rw [decodeFrom_cons, step, start_four (by omega) (by omega), List.nil_append,
    decodeFrom_middle _ (by split <;> omega) (by split <;> omega),
    decodeFrom_middle _ (by omega) (by omega), decodeFrom_last _ (by omega) (by omega), hlead,
    hmid, hmid', htail, hv]

/-- The numbers of characters leave out the surrogates and end at `0x10FFFF`. -/
theorem toNat_lt_or (c : Char) : c.toNat < 0xD800 ∨ 0xE000 ≤ c.toNat ∧ c.toNat < 0x110000 := by
  have h : c.toNat.isValidChar := c.valid
  rw [Nat.isValidChar] at h
  omega

/-- The bytes of a character are read as the character. -/
theorem decodeFrom_utf8EncodeChar (c : Char) (rest : List UInt8) :
    decodeFrom none (String.utf8EncodeChar c ++ rest) = c :: decodeFrom none rest := by
  have hvalid := toNat_lt_or c
  have hchar : Char.ofNat c.toNat = c := Char.ofNat_toNat c
  rw [String.utf8EncodeChar, show c.val.toNat = c.toNat from rfl]
  by_cases h1 : c.toNat ≤ 0x7F
  · have hb := toNat_ofNat (n := c.toNat) (by omega)
    rw [if_pos h1, List.singleton_append, decodeFrom_cons, step, start_one (by omega), hb, hchar,
      List.singleton_append]
  · rw [if_neg h1]
    by_cases h2 : c.toNat ≤ 0x7FF
    · rw [if_pos h2]
      exact (decodeFrom_two rest (by omega) h2).trans (by rw [hchar])
    · rw [if_neg h2]
      by_cases h3 : c.toNat ≤ 0xFFFF
      · rw [if_pos h3]
        exact (decodeFrom_three rest (by omega) h3 (by omega)).trans (by rw [hchar])
      · rw [if_neg h3]
        exact (decodeFrom_four rest (by omega) (by omega)).trans (by rw [hchar])

/-! ## Texts -/

/-- The UTF-8 bytes of a text are those of its characters. -/
theorem toList_toUTF8 (s : String) :
    s.toUTF8.data.toList = s.toList.flatMap String.utf8EncodeChar := by
  conv_lhs => rw [← String.ofList_toList (s := s)]
  rw [String.toUTF8_eq_toByteArray]
  exact List.toList_data_toByteArray

theorem decodeFrom_flatMap_utf8EncodeChar (cs : List Char) :
    decodeFrom none (cs.flatMap String.utf8EncodeChar) = cs := by
  induction cs with
  | nil => rfl
  | cons c cs ih => rw [List.flatMap_cons, decodeFrom_utf8EncodeChar, ih]

/-- The UTF-8 bytes of a text are read as the text. -/
theorem decodeLossy_toUTF8 (s : String) : decodeLossy s.toUTF8.data.toList = s := by
  rw [decodeLossy, toList_toUTF8, decodeFrom_flatMap_utf8EncodeChar, String.ofList_toList]

theorem zero_ne_ofNat {n : Nat} (h0 : 0 < n) (h : n < 256) : (0 : UInt8) ≠ UInt8.ofNat n := by
  intro heq
  have hn : (0 : UInt8).toNat = n := by rw [heq, toNat_ofNat h]
  rw [← hn] at h0
  exact absurd h0 (by decide)

/-- Only the zero character has a zero byte. -/
theorem zero_notMem_utf8EncodeChar {c : Char} (h : c ≠ '\x00') :
    (0 : UInt8) ∉ String.utf8EncodeChar c := by
  have hc : c.val.toNat ≠ 0 := fun h0 => h (by rw [← Char.ofNat_toNat c, Char.toNat, h0])
  rw [String.utf8EncodeChar]
  intro hmem
  split_ifs at hmem <;> simp only [List.mem_cons, List.not_mem_nil, or_false] at hmem
  · exact zero_ne_ofNat (by omega) (by omega) hmem
  · rcases hmem with hmem | hmem <;> exact zero_ne_ofNat (by omega) (by omega) hmem
  · rcases hmem with hmem | hmem | hmem <;> exact zero_ne_ofNat (by omega) (by omega) hmem
  · rcases hmem with hmem | hmem | hmem | hmem <;>
      exact zero_ne_ofNat (by omega) (by omega) hmem

theorem zero_notMem_toUTF8 {s : String} (h : '\x00' ∉ s.toList) :
    (0 : UInt8) ∉ s.toUTF8.data.toList := by
  rw [toList_toUTF8, List.mem_flatMap]
  rintro ⟨c, hc, h0⟩
  exact zero_notMem_utf8EncodeChar (fun heq => h (heq ▸ hc)) h0

/-! ## The zero character -/

/-- How many numbers so many continuation bytes tell apart. -/
def spread : (missing : Nat) → Nat
  | 0 => 1
  | missing + 1 => 64 * spread missing

namespace Pending

/-- The least number that a pending character may turn out to have. -/
def least (p : Pending) : Nat := (p.bits * 64 + (p.low - 0x80)) * spread (p.missing - 1)

/-- The number behind the greatest that it may turn out to have. -/
def bound (p : Pending) : Nat := (p.bits * 64 + (p.high - 0x80) + 1) * spread (p.missing - 1)

/-- Whatever a pending character turns out to be, it exists and is not the zero character. -/
structure Proper (p : Pending) : Prop where
  missing_pos : 0 < p.missing
  low_ge : 0x80 ≤ p.low
  least_pos : 0 < p.least
  exists_between : p.bound ≤ 0xD800 ∨ 0xE000 ≤ p.least ∧ p.bound ≤ 0x110000

/-- A pending character is proper if what it may turn out to be is among what a proper one may. -/
theorem Proper.mono {p q : Pending} (hp : p.Proper) (hmissing : 0 < q.missing)
    (hlow : 0x80 ≤ q.low) (hleast : p.least ≤ q.least) (hbound : q.bound ≤ p.bound) : q.Proper := by
  obtain ⟨-, -, hpos, hexists⟩ := hp
  exact ⟨hmissing, hlow, by omega, by omega⟩

end Pending

/-- The zero character has the number zero, and no other has. -/
theorem ofNat_ne_zero {n : Nat} (hpos : 0 < n)
    (hexists : n < 0xD800 ∨ 0xE000 ≤ n ∧ n < 0x110000) : Char.ofNat n ≠ '\x00' := by
  have hvalid : n.isValidChar := by
    unfold Nat.isValidChar
    omega
  have hn : (Char.ofNat n).toNat = n := by
    rw [Char.ofNat, dif_pos hvalid]
    rfl
  intro heq
  rw [heq] at hn
  exact absurd hn (Nat.ne_of_lt hpos)

/-- A byte between characters is a character, or stands for none, or starts a proper one. -/
theorem start_cases (b : UInt8) :
    (b.toNat < 0x80 ∧ start b = ([Char.ofNat b.toNat], none)) ∨ start b = ([replacement], none) ∨
      ∃ p : Pending, p.Proper ∧ start b = ([], some p) := by
  by_cases h1 : b.toNat < 0x80
  · exact Or.inl ⟨h1, start_one h1⟩
  right
  by_cases h2 : b.toNat < 0xC2
  · exact Or.inl (start_other (Or.inl ⟨Nat.le_of_not_lt h1, h2⟩))
  by_cases h3 : b.toNat < 0xE0
  · refine Or.inr ⟨_, ?_, start_two (Nat.le_of_not_lt h2) h3⟩
    constructor <;> simp only [Pending.least, Pending.bound, Nat.sub_self, spread] <;> omega
  by_cases h4 : b.toNat < 0xF0
  · refine Or.inr ⟨_, ⟨Nat.succ_pos _, ?_, ?_, ?_⟩, start_three (Nat.le_of_not_lt h3) h4⟩
    · dsimp only
      split_ifs <;> omega
    · simp only [Pending.least, Nat.reduceSub, spread]
      split_ifs <;> omega
    · simp only [Pending.least, Pending.bound, Nat.reduceSub, spread]
      split_ifs <;> omega
  by_cases h5 : b.toNat ≤ 0xF4
  · refine Or.inr ⟨_, ⟨Nat.succ_pos _, ?_, ?_, ?_⟩, start_four (Nat.le_of_not_lt h4) h5⟩
    · dsimp only
      split_ifs <;> omega
    · simp only [Pending.least, Nat.reduceSub, spread]
      split_ifs <;> omega
    · simp only [Pending.least, Pending.bound, Nat.reduceSub, spread]
      split_ifs <;> omega
  · exact Or.inl (start_other (Or.inr (Nat.lt_of_not_le h5)))

theorem proper_of_start {b : UInt8} {p : Pending} (h : (start b).2 = some p) : p.Proper := by
  rcases start_cases b with ⟨-, hstart⟩ | hstart | ⟨q, hq, hstart⟩
  · rw [hstart] at h
    cases h
  · rw [hstart] at h
    cases h
  · rw [hstart] at h
    cases h
    exact hq

/-- A byte between characters that is not zero does not add the zero character. -/
theorem zero_notMem_start {b : UInt8} (hb : 0 < b.toNat) : '\x00' ∉ (start b).1 := by
  rcases start_cases b with ⟨hlt, hstart⟩ | hstart | ⟨q, -, hstart⟩
  · rw [hstart, List.mem_singleton]
    exact (ofNat_ne_zero hb (by omega)).symm
  · rw [hstart]
    decide
  · rw [hstart]
    exact List.not_mem_nil

/-- A byte in the middle of a character leaves it proper. -/
theorem Pending.Proper.continued {p : Pending} (hp : p.Proper) {n : Nat} (hlow : p.low ≤ n)
    (hhigh : n ≤ p.high) (hmissing : p.missing ≠ 1) :
    Proper { missing := p.missing - 1, bits := p.bits * 64 + (n - 0x80) } := by
  obtain ⟨missing, bits, low, high⟩ := p
  obtain ⟨m, rfl⟩ : ∃ m, missing = m + 2 := by
    have hpos := hp.missing_pos
    dsimp only at hpos hmissing
    exact ⟨missing - 2, by omega⟩
  dsimp only at hlow hhigh
  refine hp.mono (Nat.succ_pos m) (Nat.le_refl _) ?_ ?_
  · have hle : (bits * 64 + (low - 0x80)) * (64 * spread m) ≤
        (bits * 64 + (n - 0x80)) * (64 * spread m) := Nat.mul_le_mul_right _ (by omega)
    simpa [least, spread, Nat.mul_assoc] using hle
  · have hle : (bits * 64 + (n - 0x80) + 1) * (64 * spread m) ≤
        (bits * 64 + (high - 0x80) + 1) * (64 * spread m) := Nat.mul_le_mul_right _ (by omega)
    simpa [bound, spread, ← Nat.mul_assoc, Nat.add_mul, Nat.add_assoc] using hle

/-- The last byte completes a character that is not the zero character. -/
theorem Pending.Proper.completed {p : Pending} (hp : p.Proper) {n : Nat} (hlow : p.low ≤ n)
    (hhigh : n ≤ p.high) (hmissing : p.missing = 1) :
    Char.ofNat (p.bits * 64 + (n - 0x80)) ≠ '\x00' := by
  obtain ⟨-, hge, hleast, hexists⟩ := hp
  simp only [least, bound, hmissing, Nat.sub_self, spread, Nat.mul_one] at hleast hexists
  exact ofNat_ne_zero (by omega) (by omega)

/-- A byte that is not zero does not add the zero character, and keeps what is pending proper. -/
theorem step_proper {state : Option Pending} (hstate : ∀ p, state = some p → p.Proper) {b : UInt8}
    (hb : b ≠ 0) :
    '\x00' ∉ (step state b).1 ∧ ∀ p, (step state b).2 = some p → p.Proper := by
  have hnat : 0 < b.toNat := Nat.pos_of_ne_zero fun h0 => hb (UInt8.toNat_inj.1 h0)
  have hstart := zero_notMem_start hnat
  cases state with
  | none => exact ⟨hstart, fun p => proper_of_start⟩
  | some p =>
    have hp := hstate p rfl
    simp only [step]
    split_ifs with hrange hlast
    · refine ⟨?_, nofun⟩
      simpa using (hp.completed hrange.1 hrange.2 hlast).symm
    · refine ⟨List.not_mem_nil, ?_⟩
      intro q hq
      cases hq
      exact hp.continued hrange.1 hrange.2 hlast
    · refine ⟨?_, fun q => proper_of_start⟩
      simpa [replacement] using hstart

/-- Bytes without a zero are read as a text without the zero character, well formed or not. -/
theorem zero_notMem_decodeFrom {bs : List UInt8} (h : (0 : UInt8) ∉ bs) {state : Option Pending}
    (hstate : ∀ p, state = some p → p.Proper) : '\x00' ∉ decodeFrom state bs := by
  induction bs generalizing state with
  | nil => cases state <;> simp [decodeFrom, replacement]
  | cons b bs ih =>
    rw [List.mem_cons, not_or] at h
    obtain ⟨htext, hnext⟩ := step_proper hstate (Ne.symm h.1)
    rw [decodeFrom_cons, List.mem_append, not_or]
    exact ⟨htext, ih h.2 hnext⟩

theorem zero_notMem_decodeLossy {bs : List UInt8} (h : (0 : UInt8) ∉ bs) :
    '\x00' ∉ (decodeLossy bs).toList := by
  rw [decodeLossy, String.toList_ofList]
  exact zero_notMem_decodeFrom h nofun

end MachImage.Utf8

namespace MachImage.Name

/-- A name with its zero byte is read back, whatever follows. -/
theorem terminated?_toUTF8 {s : String} (h : '\x00' ∉ s.toList) (rest : List UInt8) :
    terminated? (s.toUTF8.data.toList ++ [0] ++ rest)
      = some (s, s.toUTF8.data.toList.length + 1) := by
  have hzero := Utf8.zero_notMem_toUTF8 h
  have hbefore : beforeZero (s.toUTF8.data.toList ++ [0] ++ rest) = s.toUTF8.data.toList := by
    rw [List.append_assoc, List.singleton_append, beforeZero_append_zero hzero]
  rw [terminated?, zeroIndex, ofField, hbefore, Utf8.decodeLossy_toUTF8, if_pos]
  simp only [List.length_append, List.length_singleton]
  omega

/-- A name in a field has no zero character, whatever the bytes are. -/
theorem zero_notMem_ofField (bs : List UInt8) : '\x00' ∉ (ofField bs).toList :=
  Utf8.zero_notMem_decodeLossy (zero_notMem_beforeZero bs)

/-- A name that ends in a zero byte has no zero character. -/
theorem zero_notMem_of_terminated? {bs : List UInt8} {name : String} {used : Nat}
    (h : terminated? bs = some (name, used)) : '\x00' ∉ name.toList := by
  rw [(terminated?_eq_some_iff.1 h).2.1]
  exact zero_notMem_ofField bs

end MachImage.Name
