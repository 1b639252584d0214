import MachImage.Header.Read
import MachImage.Proofs.Reader.Usage

/-!
# How a header is read

A header is the only thing that is read in more than one go: the number it
starts with is looked at first, then the whole is taken, and only then are the
kinds it declares looked up.  So a failure has moved the cursor or not,
depending on its cause; `Header.Refuses` says which, and `Header.fails_read`
that there is no other way to fail.  A header that is accepted owes all it says
to its 28 bytes (`Header.uses_read`).
-/

namespace MachImage

/-- Whether the cause is a header that declares a kind of processor or of file that is not known. -/
def Error.isUnknownKind : Error → Bool
  | unknownCpuType _ | unknownCpuSubtype _ | unknownFileType _ => true
  | _ => false

namespace Header

variable {image : ByteArray} {pos cursor : Nat} {e : Error}

/-! ## The magic number -/

theorem checkMagic_eq_ok_iff {magic : UInt32} {u : Unit} :
    checkMagic magic = .ok u ↔ magic = expectedMagic := by
  unfold checkMagic
  split_ifs with hexpected hswapped
  · simp [hexpected]
  · simp [hexpected]
  · simp [hexpected]

/-- A number that is refused is not the right one, and not for a kind it declares. -/
theorem ne_of_checkMagic {magic : UInt32} (h : checkMagic magic = .error e) :
    magic ≠ expectedMagic ∧ e.isUnknownKind = false ∧ e.isBindStreamError = false := by
  unfold checkMagic at h
  split_ifs at h with hexpected hswapped
  · cases h
    exact ⟨hexpected, rfl, rfl⟩
  · cases h
    exact ⟨hexpected, rfl, rfl⟩

theorem yields_validate {u : Unit} :
    validate.Yields image pos u cursor ↔
      (pos + 4 ≤ image.size ∧ word image pos = expectedMagic) ∧ cursor = pos := by
  unfold Reader.Yields validate
  by_cases hshort : image.size < pos + 4
  · rw [if_pos hshort]
    constructor
    · rintro ⟨h, -⟩
      cases h
    · rintro ⟨⟨hle, -⟩, -⟩
      omega
  · rw [if_neg hshort]
    show checkMagic (word image pos) = .ok u ∧ pos = cursor ↔ _
    rw [checkMagic_eq_ok_iff, and_iff_right (show pos + 4 ≤ image.size by omega)]
    exact and_congr_right fun _ => eq_comm

theorem exists_yields_validate :
    (∃ u cursor, validate.Yields image pos u cursor) ↔
      pos + 4 ≤ image.size ∧ word image pos = expectedMagic := by
  constructor
  · rintro ⟨u, cursor, h⟩
    exact (yields_validate.1 h).1
  · intro h
    exact ⟨(), pos, yields_validate.2 ⟨h, rfl⟩⟩

theorem fails_validate :
    validate.Fails image pos e cursor ↔
      (image.size < pos + 4 ∧ e = .tooShortForMagic (image.size - pos) ∨
        pos + 4 ≤ image.size ∧ checkMagic (word image pos) = .error e) ∧ cursor = pos := by
  unfold Reader.Fails validate
  by_cases hshort : image.size < pos + 4
  · have hnot : ¬ pos + 4 ≤ image.size := by omega
    rw [if_pos hshort, Except.error.injEq]
    simp only [hshort, hnot, true_and, false_and, or_false]
    exact and_congr eq_comm eq_comm
  · have hle : pos + 4 ≤ image.size := by omega
    rw [if_neg hshort]
    simp only [hshort, hle, true_and, false_and, false_or]
    exact and_congr_right fun _ => eq_comm

/-- Checking the magic number looks at four bytes. -/
theorem uses_validate : validate.Uses (fun _ => 4) fun _ => 0 where
  moved_le _ := Nat.zero_le 4
  inside _ h := (yields_validate.1 h).1.1
  cursor_eq _ h := (yields_validate.1 h).2
  elsewhere := by
    intro image pos a cursor other place _ h hle hwindow
    obtain ⟨⟨-, hmagic⟩, -⟩ := yields_validate.1 h
    rw [word, ← hwindow] at hmagic
    exact yields_validate.2 ⟨⟨hle, hmagic⟩, rfl⟩

theorem atomic_validate : validate.Atomic (fun _ => 4) fun _ => 0 where
  toUses := uses_validate
  rests := by
    intro image pos e cursor h
    exact (fails_validate.1 h).2

/-! ## The whole header -/

/-- The header that a record stores, if it declares kinds that are known. -/
def ofRecord : Record.header.Values → Reader Header
  | (magic, cpu, subtype, file, commandCount, commandBytes, flagBits, _) => do
    let cpuType ← Reader.demand (Coded.ofCode? cpu) (.unknownCpuType cpu)
    let cpuSubtype ← Reader.demand (Coded.ofCode? subtype) (.unknownCpuSubtype subtype)
    let fileType ← Reader.demand (Coded.ofCode? file) (.unknownFileType file)
    let header : Header :=
      { magic, cpuType, cpuSubtype, fileType, commandCount, commandBytes, flagBits }
    Reader.note (.headerRead header)
    return header

theorem read_eq : read = (do validate; let v ← Reader.record .header; ofRecord v) := rfl

/-- What a header says of itself is looked up without looking at the image again. -/
theorem uses_ofRecord (v : Record.header.Values) :
    (ofRecord v).Uses (fun _ => 0) fun _ => 0 := by
  obtain ⟨magic, cpu, subtype, file, commandCount, commandBytes, flagBits, ⟨⟩⟩ := v
  refine (Reader.uses_demand _ _).bind_of_still fun cpuType => ?_
  refine (Reader.uses_demand _ _).bind_of_still fun cpuSubtype => ?_
  refine (Reader.uses_demand _ _).bind_of_still fun fileType => ?_
  exact (Reader.uses_note _).bind_of_still fun _ => Reader.uses_pure _

/-- A header takes 28 bytes and depends on no others. -/
theorem uses_read : read.Uses (fun _ => 28) fun _ => 28 := by
  rw [read_eq]
  exact uses_validate.bind fun _ => (Reader.atomic_record .header).toUses.bind uses_ofRecord

/-- How reading a header fails: for a kind that is not known behind the header, for anything else
before it has moved. -/
def Refuses (image : ByteArray) (pos : Nat) (e : Error) (cursor : Nat) : Prop :=
  if e.isUnknownKind then
    pos + 28 ≤ image.size ∧ word image pos = expectedMagic ∧ cursor = pos + 28
  else (image.size < pos + 28 ∨ word image pos ≠ expectedMagic) ∧ cursor = pos

theorem fails_ofRecord {v : Record.header.Values} (h : (ofRecord v).Fails image pos e cursor) :
    e.isUnknownKind = true ∧ cursor = pos := by
  obtain ⟨magic, cpu, subtype, file, commandCount, commandBytes, flagBits, ⟨⟩⟩ := v
  rcases Reader.fails_demand_bind.1 h with ⟨-, rfl, rfl⟩ | ⟨cpuType, -, h⟩
  · exact ⟨rfl, rfl⟩
  rcases Reader.fails_demand_bind.1 h with ⟨-, rfl, rfl⟩ | ⟨cpuSubtype, -, h⟩
  · exact ⟨rfl, rfl⟩
  rcases Reader.fails_demand_bind.1 h with ⟨-, rfl, rfl⟩ | ⟨fileType, -, h⟩
  · exact ⟨rfl, rfl⟩
  rcases Reader.fails_bind.1 h with h | ⟨-, middle, -, h⟩
  · exact absurd h Reader.not_fails_note
  · exact absurd h Reader.not_fails_pure

/-- There is no other way to fail. -/
theorem fails_read (h : read.Fails image pos e cursor) : Refuses image pos e cursor := by
  have hsize : Record.header.size = 28 := rfl
  unfold Refuses
  rcases Reader.fails_bind.1 h with hvalidate | ⟨⟨⟩, middle, hvalidate, hfields⟩
  · obtain ⟨hcause, rfl⟩ := fails_validate.1 hvalidate
    rcases hcause with ⟨hshort, rfl⟩ | ⟨-, hmagic⟩
    · exact ⟨Or.inl (by omega), rfl⟩
    · obtain ⟨hne, hkind, -⟩ := ne_of_checkMagic hmagic
      rw [hkind]
      exact ⟨Or.inr hne, rfl⟩
  obtain ⟨⟨-, hmagic⟩, rfl⟩ := yields_validate.1 hvalidate
  rcases Reader.fails_bind.1 hfields with hrecord | ⟨v, middle', hrecord, hkinds⟩
  · obtain ⟨hshort, rfl, rfl⟩ := Reader.fails_bytes_map.1 hrecord
    exact ⟨Or.inl (hsize ▸ hshort), rfl⟩
  · obtain ⟨hle, -, rfl⟩ := Reader.yields_record.1 hrecord
    obtain ⟨hkind, rfl⟩ := fails_ofRecord hkinds
    rw [if_pos hkind]
    exact ⟨hle, hmagic, rfl⟩

end Header

end MachImage
