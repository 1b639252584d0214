import MachImage.Proofs.First
import MachImage.Proofs.Header
import MachImage.Proofs.Record.Fields

/-!
# Exactly the valid headers

There are seven objections to a header, and they are raised in a fixed order:
a header is refused for the first one that applies and accepted if there is
none (`Header.failsFor_read`).

* What a reader fails for is a list of objections (`Reader.FailsFor`), and
  readers one after another fail for what the first objects to, and then for what
  the second does (`Reader.FailsFor.bind`).
* A header that is accepted is all that its 28 bytes say
  (`Header.yields_read`), so it can be written again.
* `Header.read_exact` puts this together: the headers that are accepted are the
  valid ones, in both directions.
-/

namespace MachImage

/-! ## Objections -/

/-- A cause for refusing what is read, with the error that is reported for it. -/
structure Objection where
  applies : Prop
  error : Error

namespace Objection

variable {o : Objection} {os os' : List Objection} {e : Error}

/-- The error is that of the first objection that applies. -/
def Refuses (os : List Objection) (e : Error) : Prop := ∃ o, First applies os o ∧ o.error = e

@[simp] theorem not_refuses_nil : ¬ Refuses [] e := by
  rintro ⟨o, ho, -⟩
  cases ho.mem

@[simp] theorem refuses_cons :
    Refuses (o :: os) e ↔ (o.applies ∧ e = o.error) ∨ (¬ o.applies ∧ Refuses os e) := by
  simp only [Refuses, first_cons]
  constructor
  · rintro ⟨a, ⟨ho, rfl⟩ | ⟨ho, ha⟩, rfl⟩
    · exact Or.inl ⟨ho, rfl⟩
    · exact Or.inr ⟨ho, a, ha, rfl⟩
  · rintro (⟨ho, rfl⟩ | ⟨ho, a, ha, rfl⟩)
    · exact ⟨o, Or.inl ⟨ho, rfl⟩, rfl⟩
    · exact ⟨a, Or.inr ⟨ho, ha⟩, rfl⟩

/-- Objections behind others count if none of these applies. -/
theorem refuses_append :
    Refuses (os ++ os') e ↔ Refuses os e ∨ ((∀ o ∈ os, ¬ o.applies) ∧ Refuses os' e) := by
  induction os with
  | nil => simp
  | cons o os ih =>
    simp only [List.cons_append, refuses_cons, ih, List.forall_mem_cons]
    by_cases ho : o.applies
    · simp [ho]
    · simp [ho]

/-- There is an error if some objection applies. -/
theorem exists_refuses_iff : (∃ e, Refuses os e) ↔ ∃ o ∈ os, o.applies := by
  constructor
  · rintro ⟨_, o, ho, rfl⟩
    exact ⟨o, ho.mem, ho.holds⟩
  · intro h
    classical
    obtain ⟨o, ho, -⟩ := exists_first h
    exact ⟨o.error, o, ho, rfl⟩

end Objection

/-! ## What readers fail for -/

namespace Reader

variable {α β : Type} {image : ByteArray} {pos : Nat} {os os' : List Objection}

/-- A reader fails for the first of some objections that applies. -/
def FailsFor (r : Reader α) (image : ByteArray) (pos : Nat) (os : List Objection) : Prop :=
  ∀ e, (∃ cursor, r.Fails image pos e cursor) ↔ Objection.Refuses os e

/-- Where no objection applies the reader yields something. -/
theorem FailsFor.exists_yields_iff {r : Reader α} (hr : r.FailsFor image pos os) :
    (∃ a cursor, r.Yields image pos a cursor) ↔ ∀ o ∈ os, ¬ o.applies := by
  have hfails : (∃ e, Objection.Refuses os e) ↔ ∃ o ∈ os, o.applies :=
    Objection.exists_refuses_iff
  simp only [← hr _] at hfails
  constructor
  · rintro ⟨a, cursor, ha⟩ o ho happlies
    obtain ⟨e, cursor', he⟩ := hfails.2 ⟨o, ho, happlies⟩
    exact he.not_yields ha
  · intro hnone
    rcases r.yields_or_fails image pos with hyields | hfail
    · exact hyields
    · obtain ⟨o, ho, happlies⟩ := hfails.1 hfail
      exact absurd happlies (hnone o ho)

/-- What follows a reader fails for what it objects to where the reader does not. -/
theorem FailsFor.bind {r : Reader α} {f : α → Reader β} (hr : r.FailsFor image pos os)
    (hf : ∀ a middle, r.Yields image pos a middle → (f a).FailsFor image middle os') :
    (r >>= f).FailsFor image pos (os ++ os') := by
  intro e
  rw [Objection.refuses_append, ← hr e, ← hr.exists_yields_iff]
  simp only [fails_bind, exists_or]
  apply or_congr_right
  constructor
  · rintro ⟨cursor, a, middle, ha, h⟩
    exact ⟨⟨a, middle, ha⟩, (hf a middle ha e).1 ⟨cursor, h⟩⟩
  · rintro ⟨⟨a, middle, ha⟩, h⟩
    obtain ⟨cursor, hcursor⟩ := (hf a middle ha e).2 h
    exact ⟨cursor, a, middle, ha, hcursor⟩

theorem failsFor_pure {a : α} : (Pure.pure a : Reader α).FailsFor image pos [] := by
  intro e
  simp

theorem failsFor_note {n : Note} : (note n).FailsFor image pos [] := by
  intro e
  simp

theorem failsFor_record {r : Record} :
    (record r).FailsFor image pos
      [⟨image.size < pos + r.size,
        .bufferTooSmall (min (pos + r.size) lastPosition) image.size⟩] := by
  intro e
  have hfails : ∀ cursor, (record r).Fails image pos e cursor ↔ _ := fun _ => fails_bytes_map
  simp [hfails]

/-- A number is looked up in vain if it stands for nothing. -/
theorem failsFor_demand [Coded α UInt32] {k : UInt32} {e' : Error} {p : Prop}
    (hp : p ↔ (Coded.ofCode? k : Option α) = none) :
    (demand (Coded.ofCode? k : Option α) e').FailsFor image pos [⟨p, e'⟩] := by
  intro e
  simp [hp]

end Reader

namespace Header

variable {image : ByteArray} {pos cursor : Nat}

/-! ## The objections to a header -/

/-- The words for the processors that are known. -/
def knownSubtypes : List UInt32 := [0, 5, 6, 7, 8, 9, 10, 11, 12, 13, 14, 15, 16]

/-- The words for the kinds of file that are known. -/
def knownFileTypes : List UInt32 := [1, 2, 3, 4, 5, 6, 7, 8, 9, 10, 11]

/-- The objections to a file that starts with the wrong number. -/
def magicObjections (image : ByteArray) (pos : Nat) : List Objection :=
  [⟨image.size < pos + 4, .tooShortForMagic (image.size - pos)⟩,
   ⟨word image pos = 0xCEFAEDFE, .byteSwapped⟩,
   ⟨word image pos ≠ 0xFEEDFACE, .invalidMagic (word image pos)⟩]

/-- The objections to the kinds that a header declares. -/
def kindObjections (cpu subtype file : UInt32) : List Objection :=
  [⟨cpu ≠ 12, .unknownCpuType cpu⟩,
   ⟨subtype ∉ knownSubtypes, .unknownCpuSubtype subtype⟩,
   ⟨file ∉ knownFileTypes, .unknownFileType file⟩]

/-- The objections to a header at a position, in the order in which they are raised. -/
def objections (image : ByteArray) (pos : Nat) : List Objection :=
  -- a word that the image cuts short does not count, for an objection to its size comes before
  magicObjections image pos ++
    (⟨image.size < pos + 28, .bufferTooSmall (min (pos + 28) lastPosition) image.size⟩ ::
      kindObjections (word image (pos + 4)) (word image (pos + 8)) (word image (pos + 12)))

theorem checkMagic_eq_error_iff {magic : UInt32} {e : Error} :
    checkMagic magic = .error e ↔
      (magic = 0xCEFAEDFE ∧ e = .byteSwapped) ∨
        (magic ≠ 0xCEFAEDFE ∧ magic ≠ 0xFEEDFACE ∧ e = .invalidMagic magic) := by
  unfold checkMagic expectedMagic swappedMagic
  split_ifs with hexpected hswapped
  · simp [hexpected]
  · simp [hswapped, eq_comm]
  · simp [hexpected, hswapped, eq_comm]

theorem failsFor_validate : validate.FailsFor image pos (magicObjections image pos) := by
  intro e
  simp [fails_validate, checkMagic_eq_error_iff, magicObjections]

theorem failsFor_ofRecord (magic cpu subtype file commandCount commandBytes flagBits : UInt32) :
    (ofRecord (magic, cpu, subtype, file, commandCount, commandBytes, flagBits, ())).FailsFor image
      pos (kindObjections cpu subtype file) := by
  have hknown : cpu ∉ [12] ↔ (Coded.ofCode? cpu : Option CpuType) = none :=
    Coded.notMem_iff_ofCode?_eq_none (by intro a; cases a; decide) rfl
  have hcpu : cpu ≠ 12 ↔ (Coded.ofCode? cpu : Option CpuType) = none :=
    (not_congr List.mem_singleton.symm).trans hknown
  have hsubtype : subtype ∉ knownSubtypes ↔ (Coded.ofCode? subtype : Option CpuSubtype) = none :=
    Coded.notMem_iff_ofCode?_eq_none (by intro a; cases a <;> decide) rfl
  have hfile : file ∉ knownFileTypes ↔ (Coded.ofCode? file : Option FileType) = none :=
    Coded.notMem_iff_ofCode?_eq_none (by intro a; cases a <;> decide) rfl
  refine (Reader.failsFor_demand hcpu).bind fun cpuType _ _ => ?_
  refine (Reader.failsFor_demand hsubtype).bind fun cpuSubtype _ _ => ?_
  refine (Reader.failsFor_demand hfile).bind fun fileType _ _ => ?_
  exact Reader.failsFor_note.bind fun _ _ _ => Reader.failsFor_pure

/-- **A header is refused for the first objection that applies.** -/
theorem failsFor_read : read.FailsFor image pos (objections image pos) := by
  rw [read_eq]
  refine failsFor_validate.bind fun _ _ hvalidate => ?_
  obtain ⟨-, rfl⟩ := yields_validate.1 hvalidate
  -- what the record holds is what lies at the position, and so are the words that are objected to
  refine Reader.failsFor_record.bind fun v middle hv => ?_
  obtain ⟨-, rfl, -⟩ := Reader.yields_record.1 hv
  exact failsFor_ofRecord _ _ _ _ _ _ _

/-! ## The headers that are accepted -/

/-- A record that declares known kinds stores one header, and nothing of it is lost. -/
theorem yields_ofRecord {v : Record.header.Values} {h : Header} :
    (ofRecord v).Yields image pos h cursor ↔ h.toRecord = v ∧ cursor = pos := by
  obtain ⟨magic, cpu, subtype, file, commandCount, commandBytes, flagBits, ⟨⟩⟩ := v
  simp only [ofRecord, Reader.yields_demand_bind, Coded.ofCode?_eq_some_iff,
    Reader.yields_note_bind, Reader.yields_pure]
  constructor
  · rintro ⟨cpuType, rfl, cpuSubtype, rfl, fileType, rfl, rfl, rfl⟩
    exact ⟨rfl, rfl⟩
  · rintro ⟨hrecord, rfl⟩
    cases hrecord
    exact ⟨_, rfl, _, rfl, _, rfl, rfl, rfl⟩

/-- **A header that is accepted is all that its bytes say.** -/
theorem yields_read {h : Header} :
    read.Yields image pos h cursor ↔
      (pos + 28 ≤ image.size ∧ word image pos = expectedMagic) ∧
        h.toRecord = Record.header.layout.readAt image pos ∧ cursor = pos + 28 := by
  rw [read_eq, Reader.yields_bind]
  constructor
  · rintro ⟨⟨⟩, _, hvalidate, hfields⟩
    obtain ⟨⟨-, hmagic⟩, rfl⟩ := yields_validate.1 hvalidate
    obtain ⟨v, middle, hv, hkinds⟩ := Reader.yields_bind.1 hfields
    obtain ⟨hle, rfl, rfl⟩ := Reader.yields_record.1 hv
    obtain ⟨hrecord, rfl⟩ := yields_ofRecord.1 hkinds
    exact ⟨⟨hle, hmagic⟩, hrecord, rfl⟩
  · rintro ⟨⟨hle, hmagic⟩, hrecord, rfl⟩
    have hvalidate : validate.Yields image pos () pos :=
      yields_validate.2 ⟨⟨by omega, hmagic⟩, rfl⟩
    have hkinds : (ofRecord (Record.header.layout.readAt image pos)).Yields image (pos + 28) h
        (pos + 28) := yields_ofRecord.2 ⟨hrecord, rfl⟩
    exact ⟨(), pos, hvalidate,
      Reader.yields_bind.2 ⟨_, _, Reader.yields_record.2 ⟨hle, rfl, rfl⟩, hkinds⟩⟩

/-- A header with the right number is read back from between other bytes. -/
theorem yields_read_encode {h : Header} (hmagic : h.magic = expectedMagic)
    (before after : List UInt8) :
    read.Yields ⟨(before ++ Record.header.encode h.toRecord ++ after).toArray⟩ before.length h
      (before.length + 28) := by
  have hread := Record.header.yields_encode h.toRecord before after
  obtain ⟨hle, hrecord, -⟩ := Reader.yields_record.1 hread
  have hfirst : h.magic = word _ before.length := congrArg Prod.fst hrecord
  exact yields_read.2 ⟨⟨hle, hfirst ▸ hmagic⟩, hrecord, rfl⟩

/-- There is a valid header at a position. -/
structure ValidAt (image : ByteArray) (pos : Nat) : Prop where
  inside : pos + 28 ≤ image.size
  magic_eq : word image pos = 0xFEEDFACE
  cpuType_eq : word image (pos + 4) = 12
  cpuSubtype_mem : word image (pos + 8) ∈ knownSubtypes
  fileType_mem : word image (pos + 12) ∈ knownFileTypes

/-- Nothing is to be said against a valid header, and against no other. -/
theorem validAt_iff : ValidAt image pos ↔ ∀ o ∈ objections image pos, ¬ o.applies := by
  simp only [objections, magicObjections, kindObjections, List.forall_mem_append,
    List.forall_mem_cons, List.not_mem_nil, false_implies, implies_true, and_true, not_not, not_lt]
  constructor
  · rintro ⟨hinside, hmagic, hcpu, hsubtype, hfile⟩
    exact ⟨⟨by omega, by simp [hmagic], hmagic⟩, hinside, hcpu, hsubtype, hfile⟩
  · rintro ⟨⟨-, -, hmagic⟩, hinside, hcpu, hsubtype, hfile⟩
    exact ⟨hinside, hmagic, hcpu, hsubtype, hfile⟩

/-- A header is accepted just where there is a valid one. -/
theorem exists_yields_read :
    (∃ h cursor, read.Yields image pos h cursor) ↔ ValidAt image pos := by
  rw [validAt_iff, failsFor_read.exists_yields_iff]

/-- Reading a header at a position of an image tells a valid one from any other. -/
structure ReadExactly (image : ByteArray) (pos : Nat) : Prop where
  accepts_iff : (∃ h, (read image pos).result = .ok h) ↔ ValidAt image pos
  /-- What is accepted, written again, is the bytes that were read. -/
  encode_eq : ∀ h, (read image pos).result = .ok h →
    Record.header.encode h.toRecord = window image pos 28 ∧ (read image pos).cursor = pos + 28
  /-- What is refused is refused for the first objection. -/
  refuses_iff : ∀ e, (read image pos).result = .error e ↔
    ∃ o, First Objection.applies (objections image pos) o ∧ o.error = e

/-- **Exactly the valid headers are accepted**, and nothing of them is lost: a header that is read
can be written again, and one that is written is read back. -/
theorem read_exact :
    (∀ image pos, ReadExactly image pos) ∧
      ∀ (h : Header) (before after : List UInt8), h.magic = 0xFEEDFACE →
        read.Yields ⟨(before ++ Record.header.encode h.toRecord ++ after).toArray⟩ before.length h
          (before.length + 28) := by
  refine ⟨fun image pos => ?_, fun h before after hmagic => yields_read_encode hmagic before after⟩
  constructor
  case accepts_iff =>
    simp only [← exists_yields_read, Reader.result_eq_ok_iff]
  case encode_eq =>
    intro h hread
    obtain ⟨⟨hle, -⟩, hrecord, hcursor⟩ := yields_read.1 ⟨hread, rfl⟩
    rw [hrecord]
    exact ⟨Record.encode_readAt .header hle, hcursor⟩
  case refuses_iff =>
    intro e
    rw [Reader.result_eq_error_iff]
    exact failsFor_read e

/-- A header that declares neither a processor nor a kind of file that is known. -/
def strangeKinds : ByteArray := ⟨#[
  0xCE, 0xFA, 0xED, 0xFE, 12, 0, 0, 0, 1, 0, 0, 0, 99, 0, 0, 0, 0, 0, 0, 0, 0, 0, 0, 0, 0, 0, 0, 0]⟩

theorem read_exact_strangeKinds :
    (read strangeKinds 0).result = .error (.unknownCpuSubtype 1) ∧
      read.Yields
        ⟨([0xFF] ++ Record.header.encode
          (toRecord ⟨0xFEEDFACE, .arm, .armV7, .execute, 1, 24, 0x85⟩) ++ [1]).toArray⟩ 1
        ⟨0xFEEDFACE, .arm, .armV7, .execute, 1, 24, 0x85⟩ 29 := by
  have hsize : strangeKinds.size = 28 := rfl
  have hmagic : word strangeKinds 0 = 0xFEEDFACE := by decide
  have hcpu : word strangeKinds (0 + 4) = 12 := by decide
  have hsubtype : word strangeKinds (0 + 8) = 1 := by decide
  refine ⟨((read_exact.1 strangeKinds 0).refuses_iff _).2 ?_, read_exact.2 _ [0xFF] [1] rfl⟩
  show Objection.Refuses _ _
  simp [objections, magicObjections, kindObjections, knownSubtypes, hsize, hmagic, hcpu, hsubtype]

end Header

end MachImage
