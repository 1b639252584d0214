import MachImage.Proofs.BindStream.Encoding
import MachImage.Proofs.Reader.Usage

/-!
# Operands by themselves

How an operand is read depends neither on what follows it nor on where it
starts.  It is read from the bytes that it uses, whatever comes after them
(`SelfContained`), so that it ends by itself (`SelfDelimiting`): with more bytes
behind it, the same operand is read from the same bytes.  A stream that starts
later has the same operands, and where one is at fault is that much further on
(`Operation.decode_shift`).

`OperandFault` lists what can be wrong with the operands of an opcode, and
`Operation.decode_eq_error_iff` says that they cannot be read for no other cause.
Each of these causes is at one of the bytes or behind the last of them
(`OperandFault.liesBetween`).
-/

namespace MachImage

namespace BindStream

/-! ## Operands that end by themselves -/

/-- A reader of the front of a list uses no more bytes than there are, and reads the same with more
bytes behind them. -/
def SelfDelimiting {α : Type} (read : List UInt8 → Except Error (α × Nat)) : Prop :=
  ∀ bs a used, read bs = .ok (a, used) →
    used ≤ bs.length ∧ ∀ more, read (bs ++ more) = .ok (a, used)

/-- What a reader of the front of a list finds there, it finds in the bytes that it uses, no matter
what comes after them. -/
def SelfContained {α : Type} (read : List UInt8 → Except Error (α × Nat)) : Prop :=
  ∀ bs a used, read bs = .ok (a, used) →
    used ≤ bs.length ∧ ∀ rest, read (bs.take used ++ rest) = .ok (a, used)

namespace SelfContained

variable {α β : Type}

theorem selfDelimiting {read : List UInt8 → Except Error (α × Nat)} (hread : SelfContained read) :
    SelfDelimiting read := by
  intro bs a used h
  obtain ⟨hle, hrest⟩ := hread bs a used h
  refine ⟨hle, fun more => ?_⟩
  have hsplit : bs.take used ++ (bs.drop used ++ more) = bs ++ more := by
    rw [← List.append_assoc, List.take_append_drop]
  rw [← hsplit]
  exact hrest _

/-- What is read from the front of a list can be read from any beginning that holds the bytes it
uses. -/
theorem of_append {read : List UInt8 → Except Error (α × Nat)} (hread : SelfContained read)
    {bs more : List UInt8} {a : α} {used : Nat} (h : read (bs ++ more) = .ok (a, used))
    (hused : used ≤ bs.length) : read bs = .ok (a, used) := by
  obtain ⟨-, hrest⟩ := hread _ _ _ h
  have hbeginning : (bs ++ more).take used ++ bs.drop used = bs := by
    rw [List.take_append_of_le_length hused, List.take_append_drop]
  rw [← hrest (bs.drop used), hbeginning]

/-- A reader of what is found by a scan that ends by itself. -/
theorem of_endsAt {read : List UInt8 → Except Error (α × Nat)}
    {find : List UInt8 → Option (α × Nat)} {extent : List UInt8 → Nat}
    (hread : ∀ {bs operand}, read bs = .ok operand ↔ find bs = some operand)
    (hfind : EndsAt find extent) : SelfContained read := by
  intro bs a used h
  obtain ⟨-, hle, hrest⟩ := hfind (hread.1 h)
  exact ⟨hle, fun rest => hread.2 (hrest rest)⟩

/-- What uses no bytes ends by itself. -/
theorem const (a : α) : SelfContained fun _ => .ok (a, 0) := by
  intro bs b used h
  cases h
  exact ⟨Nat.zero_le _, fun _ => rfl⟩

/-- What is computed from the value of an operand ends where the operand does. -/
theorem map {read : List UInt8 → Except Error (α × Nat)} (hread : SelfContained read)
    (f : α → β) : SelfContained fun bs => do
      let (a, used) ← read bs
      return (f a, used) := by
  intro bs b used h
  cases hfirst : read bs with
  | error e =>
    simp only [hfirst] at h
    cases h
  | ok p =>
    obtain ⟨a, n⟩ := p
    simp only [hfirst] at h
    cases h
    obtain ⟨hle, hrest⟩ := hread bs a _ hfirst
    refine ⟨hle, fun rest => ?_⟩
    simp only [hrest]
    rfl

/-- Two operands one after the other end by themselves if each does. -/
theorem pair {γ : Type} {read : List UInt8 → Except Error (α × Nat)}
    {next : Nat → List UInt8 → Except Error (β × Nat)} (hread : SelfContained read)
    (hnext : ∀ n, SelfContained (next n)) (f : α → β → γ) : SelfContained fun bs => do
      let (a, used) ← read bs
      let (b, used') ← next used (bs.drop used)
      return (f a b, used + used') := by
  intro bs c used h
  cases hfirst : read bs with
  | error e =>
    simp only [hfirst] at h
    cases h
  | ok p =>
    obtain ⟨a, n⟩ := p
    obtain ⟨hle, hrest⟩ := hread bs a n hfirst
    simp only [hfirst] at h
    cases hsecond : next n (bs.drop n) with
    | error e =>
      simp only [Bind.bind, Except.bind, hsecond] at h
      cases h
    | ok q =>
      obtain ⟨b, m⟩ := q
      obtain ⟨hle', hrest'⟩ := hnext n (bs.drop n) b m hsecond
      simp only [Bind.bind, Except.bind, hsecond] at h
      cases h
      rw [List.length_drop] at hle'
      refine ⟨by omega, fun rest => ?_⟩
      have hsplit : bs.take (n + m) ++ rest = bs.take n ++ ((bs.drop n).take m ++ rest) := by
        rw [List.take_add, List.append_assoc]
      have hdrop : (bs.take n ++ ((bs.drop n).take m ++ rest)).drop n =
          (bs.drop n).take m ++ rest :=
        List.drop_left' (List.length_take_of_le hle)
      simp only [hsplit, hrest, Bind.bind, Except.bind, hdrop, hrest']
      rfl

end SelfContained

namespace Operation

theorem unsignedOperand_eq_ok_iff {offset : Nat} {bs : List UInt8} {operand : UInt64 × Nat} :
    unsignedOperand offset bs = .ok operand ↔ Leb128.unsigned? bs = some operand := by
  unfold unsignedOperand
  cases Leb128.unsigned? bs <;> simp

theorem signedOperand_eq_ok_iff {offset : Nat} {bs : List UInt8} {operand : Int64 × Nat} :
    signedOperand offset bs = .ok operand ↔ Leb128.signed? bs = some operand := by
  unfold signedOperand
  cases Leb128.signed? bs <;> simp

theorem nameOperand_eq_ok_iff {offset : Nat} {bs : List UInt8} {operand : String × Nat} :
    nameOperand offset bs = .ok operand ↔ Name.terminated? bs = some operand := by
  unfold nameOperand
  cases Name.terminated? bs <;> simp

theorem selfContained_unsignedOperand (offset : Nat) : SelfContained (unsignedOperand offset) :=
  .of_endsAt unsignedOperand_eq_ok_iff Leb128.endsAt_unsigned?

theorem selfContained_signedOperand (offset : Nat) : SelfContained (signedOperand offset) :=
  .of_endsAt signedOperand_eq_ok_iff Leb128.endsAt_signed?

theorem selfContained_nameOperand (offset : Nat) : SelfContained (nameOperand offset) :=
  .of_endsAt nameOperand_eq_ok_iff Name.endsAt_terminated?

/-- The operands of every operation end by themselves. -/
theorem selfContained_decode (opcode : Opcode) (offset : Nat) :
    SelfContained (decode opcode offset) := by
  cases opcode with
  | done => exact .const done
  | setOrdinalImmediate => exact .const setOrdinalImmediate
  | setOrdinalUnsigned => exact (selfContained_unsignedOperand offset).map setOrdinalUnsigned
  | setOrdinalSpecial => exact .const setOrdinalSpecial
  | setSymbol => exact (selfContained_nameOperand offset).map setSymbol
  | setType => exact .const setType
  | setAddend => exact (selfContained_signedOperand offset).map setAddend
  | setSegmentAndOffset => exact (selfContained_unsignedOperand offset).map setSegmentAndOffset
  | addAddress => exact (selfContained_unsignedOperand offset).map addAddress
  | bind => exact .const bind
  | bindAddAddress => exact (selfContained_unsignedOperand offset).map bindAddAddress
  | bindAddScaled => exact .const bindAddScaled
  | bindRepeated =>
    exact (selfContained_unsignedOperand offset).pair
      (fun n => selfContained_unsignedOperand (offset + n)) bindRepeated

end Operation

/-! ## What is wrong with operands -/

/-- The operations whose first operand is an unsigned number. -/
def Opcode.takesUnsigned : Opcode → Bool
  | .setOrdinalUnsigned | .setSegmentAndOffset | .addAddress | .bindAddAddress
  | .bindRepeated => true
  | _ => false

/-- What can be wrong with the operands of an opcode in the bytes after it, which start at
`offset`. -/
inductive OperandFault (offset : Nat) (bs : List UInt8) : Opcode → Error → Prop where
  /-- The number they start with cannot be read. -/
  | unsigned {opcode : Opcode} (htakes : opcode.takesUnsigned = true)
      (hbad : Leb128.unsigned? bs = none) :
      OperandFault offset bs opcode (.invalidUnsignedLeb offset)
  /-- The count of a repeated bind can be read, but not what it skips. -/
  | skip {count : UInt64} {used : Nat} (hcount : Leb128.unsigned? bs = some (count, used))
      (hbad : Leb128.unsigned? (bs.drop used) = none) :
      OperandFault offset bs .bindRepeated (.invalidUnsignedLeb (offset + used))
  | addend (hbad : Leb128.signed? bs = none) :
      OperandFault offset bs .setAddend (.invalidSignedLeb offset)
  /-- No zero byte ends the name. -/
  | name (hends : 0 ∉ bs) :
      OperandFault offset bs .setSymbol (.malformed offset .unterminatedName)

namespace Operation

theorem unsignedOperand_eq_error_iff {offset : Nat} {bs : List UInt8} {e : Error} :
    unsignedOperand offset bs = .error e ↔
      Leb128.unsigned? bs = none ∧ e = .invalidUnsignedLeb offset := by
  unfold unsignedOperand
  cases Leb128.unsigned? bs <;> simp [eq_comm]

theorem signedOperand_eq_error_iff {offset : Nat} {bs : List UInt8} {e : Error} :
    signedOperand offset bs = .error e ↔
      Leb128.signed? bs = none ∧ e = .invalidSignedLeb offset := by
  unfold signedOperand
  cases Leb128.signed? bs <;> simp [eq_comm]

theorem nameOperand_eq_error_iff {offset : Nat} {bs : List UInt8} {e : Error} :
    nameOperand offset bs = .error e ↔ 0 ∉ bs ∧ e = .malformed offset .unterminatedName := by
  unfold nameOperand Name.terminated?
  rw [← Name.zeroIndex_lt_length_iff]
  by_cases hends : Name.zeroIndex bs < bs.length <;> simp [hends, eq_comm]

/-- What is computed of an operand that can be read. -/
theorem map_eq_ok_iff {α β : Type} {operand : Except Error α} {f : α → β} {b : β} :
    (do let a ← operand; return f a) = Except.ok b ↔ ∃ a, operand = .ok a ∧ f a = b := by
  cases operand <;> simp

/-- What only computes something of an operand fails where the operand does. -/
theorem map_eq_error_iff {α β : Type} {operand : Except Error α} {f : α → β} {e : Error} :
    (do let a ← operand; return f a) = Except.error e ↔ operand = .error e := by
  cases operand <;> simp

/-- **Operands that cannot be read** are at fault for one of these causes, and each of these is the
error of reading them. -/
theorem decode_eq_error_iff {opcode : Opcode} {offset : Nat} {bs : List UInt8} {e : Error} :
    decode opcode offset bs = .error e ↔ OperandFault offset bs opcode e := by
  cases opcode with
  | setOrdinalUnsigned | setSegmentAndOffset | addAddress | bindAddAddress =>
    refine (map_eq_error_iff.trans unsignedOperand_eq_error_iff).trans ⟨?_, ?_⟩
    · rintro ⟨hbad, rfl⟩
      exact .unsigned rfl hbad
    · intro h
      cases h with
      | unsigned htakes hbad => exact ⟨hbad, rfl⟩
  | setAddend =>
    refine (map_eq_error_iff.trans signedOperand_eq_error_iff).trans ⟨?_, ?_⟩
    · rintro ⟨hbad, rfl⟩
      exact .addend hbad
    · intro h
      cases h with
      | unsigned htakes hbad => cases htakes
      | addend hbad => exact ⟨hbad, rfl⟩
  | setSymbol =>
    refine (map_eq_error_iff.trans nameOperand_eq_error_iff).trans ⟨?_, ?_⟩
    · rintro ⟨hends, rfl⟩
      exact .name hends
    · intro h
      cases h with
      | unsigned htakes hbad => cases htakes
      | name hends => exact ⟨hends, rfl⟩
  | bindRepeated =>
    constructor
    · intro h
      cases hcount : unsignedOperand offset bs with
      | error e' =>
        rw [decode, hcount] at h
        cases h
        obtain ⟨hbad, rfl⟩ := unsignedOperand_eq_error_iff.1 hcount
        exact .unsigned rfl hbad
      | ok count =>
        rw [decode, hcount] at h
        have hskip : unsignedOperand (offset + count.2) (bs.drop count.2) = .error e :=
          map_eq_error_iff.1 h
        obtain ⟨hbad, rfl⟩ := unsignedOperand_eq_error_iff.1 hskip
        exact .skip (unsignedOperand_eq_ok_iff.1 hcount) hbad
    · intro h
      cases h with
      | unsigned htakes hbad =>
        rw [decode, unsignedOperand_eq_error_iff.2 ⟨hbad, rfl⟩]
        rfl
      | @skip count used hcount hbad =>
        have hskip : unsignedOperand (offset + used) (bs.drop used) = .error _ :=
          unsignedOperand_eq_error_iff.2 ⟨hbad, rfl⟩
        rw [decode, unsignedOperand_eq_ok_iff.2 hcount]
        exact map_eq_error_iff.2 hskip
  | done | setOrdinalImmediate | setOrdinalSpecial | setType | bind | bindAddScaled =>
    constructor
    · intro h
      cases h
    · intro h
      cases h with
      | unsigned htakes hbad => cases htakes

end Operation

end BindStream

/-! ## Where a cause is -/

namespace Error

/-- Where in a bind stream a cause is, for the causes that a bind stream can have. -/
def position? : Error → Option Nat
  | unknownBindOpcode _ offset => some offset
  | invalidUnsignedLeb offset => some offset
  | invalidSignedLeb offset => some offset
  | malformed offset _ => some offset
  | _ => none

/-- The cause is at one of the places from `lo` to `hi`. -/
def LiesBetween (lo hi : Nat) (e : Error) : Prop :=
  ∃ o, e.position? = some o ∧ lo ≤ o ∧ o ≤ hi

theorem LiesBetween.mono {lo lo' hi hi' : Nat} {e : Error} (h : e.LiesBetween lo hi)
    (hlo : lo' ≤ lo) (hhi : hi ≤ hi') : e.LiesBetween lo' hi' := by
  obtain ⟨o, ho, hl, hr⟩ := h
  exact ⟨o, ho, Nat.le_trans hlo hl, Nat.le_trans hr hhi⟩

@[simp] theorem position?_shift (base : Nat) (e : Error) :
    (e.shift base).position? = e.position?.map (base + ·) := by
  cases e <;> rfl

theorem shift_shift (m n : Nat) (e : Error) : (e.shift m).shift n = e.shift (n + m) := by
  cases e <;> simp [shift, Nat.add_assoc]

end Error

namespace BindStream

namespace Operation

theorem unsignedOperand_shift (base offset : Nat) (bs : List UInt8) :
    unsignedOperand (base + offset) bs = (unsignedOperand offset bs).mapError (Error.shift base) := by
  unfold unsignedOperand
  cases Leb128.unsigned? bs <;> rfl

theorem signedOperand_shift (base offset : Nat) (bs : List UInt8) :
    signedOperand (base + offset) bs = (signedOperand offset bs).mapError (Error.shift base) := by
  unfold signedOperand
  cases Leb128.signed? bs <;> rfl

theorem nameOperand_shift (base offset : Nat) (bs : List UInt8) :
    nameOperand (base + offset) bs = (nameOperand offset bs).mapError (Error.shift base) := by
  unfold nameOperand
  cases Name.terminated? bs <;> rfl

/-- The operands of a stream that starts later are the same; only where a fault is moves. -/
theorem decode_shift (opcode : Opcode) (base offset : Nat) (bs : List UInt8) :
    decode opcode (base + offset) bs = (decode opcode offset bs).mapError (Error.shift base) := by
  cases opcode with
  | setSymbol =>
    rw [decode, nameOperand_shift, decode]
    cases nameOperand offset bs <;> rfl
  | setAddend =>
    rw [decode, signedOperand_shift, decode]
    cases signedOperand offset bs <;> rfl
  | bindRepeated =>
    rw [decode, unsignedOperand_shift, decode]
    cases unsignedOperand offset bs with
    | error e => rfl
    | ok count =>
      have hskip := unsignedOperand_shift base (offset + count.2) (bs.drop count.2)
      simp only [Bind.bind, Except.bind, Except.mapError, Nat.add_assoc, hskip]
      cases unsignedOperand (offset + count.2) (bs.drop count.2) <;> rfl
  | setOrdinalUnsigned | setSegmentAndOffset | addAddress | bindAddAddress =>
    rw [decode, unsignedOperand_shift, decode]
    cases unsignedOperand offset bs <;> rfl
  | _ => rfl

end Operation

/-- Operands that cannot be read are at fault within their bytes. -/
theorem OperandFault.liesBetween {offset : Nat} {bs : List UInt8} {opcode : Opcode} {e : Error}
    (h : OperandFault offset bs opcode e) : e.LiesBetween offset (offset + bs.length) := by
  cases h with
  | unsigned | addend | name => exact ⟨offset, rfl, Nat.le_refl _, Nat.le_add_right ..⟩
  | @skip count used hcount hbad =>
    obtain ⟨-, hused, -⟩ := Leb128.endsAt_unsigned? hcount
    exact ⟨offset + used, rfl, Nat.le_add_right .., Nat.add_le_add_left hused _⟩

end BindStream

end MachImage
