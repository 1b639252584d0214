import MachImage.Proofs.Command.Walk
import MachImage.Proofs.Reader.Range
import Mathlib.Algebra.Ring.Nat

/-!
# Where a failed walk leaves the cursor

The reader of a body moves the cursor inside its command only, and not beyond the
end of the image: a record and a table behind it are read if the declared length
covers them, a name starts and ends inside the command, and whatever lies elsewhere
in the file is read with the cursor put back (`Command.staysIn_readBody`).  So the
reader of a command that fails leaves the cursor inside the command that is at
fault, or within its first two words if these are all that can be read of it
(`Entry.stays_read`), and a walk that fails leaves it where the reader of that
command does (`Walk.cursor_of_failure`).
-/

namespace MachImage

open Reader

variable {options : Options} {image : ByteArray}

/-! ## Bodies -/

namespace Command

variable {α : Type} {h : CommandHeader} {pos : Nat}

/-- A reader leaves the cursor inside a command and inside the image. -/
def StaysIn (r : Reader α) (image : ByteArray) (h : CommandHeader) (pos : Nat) : Prop :=
  r.Stays image pos h.offset (min h.endOffset image.size)

/-- The cursor is inside a command and inside the image. -/
def Inside (image : ByteArray) (h : CommandHeader) (pos : Nat) : Prop :=
  h.offset ≤ pos ∧ pos ≤ min h.endOffset image.size

/-- A record is read if the command covers it, and what follows starts behind it. -/
theorem staysIn_readRecord_bind {r : Record} {f : r.Values → Reader α}
    (hoffset : h.offset ≤ image.size)
    (hf : ∀ v, r.size ≤ h.length.toNat → Inside image h (h.offset + r.size) →
      StaysIn (f v) image h (h.offset + r.size)) :
    StaysIn (readRecord h r >>= f) image h h.offset := by
  have hinside : h.offset ≤ min h.endOffset image.size :=
    Nat.le_min.2 ⟨Nat.le_add_right .., hoffset⟩
  have hrecord : StaysIn (readRecord h r) image h h.offset := by
    refine stays_unless (Nat.le_refl _) hinside fun hlength => ?_
    refine stays_record (Nat.le_refl _) hinside fun hle => ?_
    unfold CommandHeader.endOffset
    omega
  refine Stays.bind hrecord fun v middle hv => ?_
  obtain ⟨hlo, hhi⟩ := hrecord.of_yields hv
  obtain ⟨hlength, hv⟩ := yields_unless.1 hv
  obtain ⟨-, -, rfl⟩ := yields_record.1 hv
  exact hf v (Nat.le_of_not_lt hlength) ⟨hlo, hhi⟩

/-- A body that is computed from the record alone. -/
theorem staysIn_readRecord_map {r : Record} (f : r.Values → α) (hoffset : h.offset ≤ image.size) :
    StaysIn (readRecord h r >>= fun v => Pure.pure (f v)) image h h.offset :=
  staysIn_readRecord_bind hoffset fun _ _ hinside => stays_pure hinside.1 hinside.2 _

/-- A name starts and ends inside the command. -/
theorem staysIn_readName (hinside : Inside image h pos) (nameOffset : UInt32) :
    StaysIn (readName h nameOffset) image h pos := by
  obtain ⟨hlo, hhi⟩ := hinside
  refine stays_unless hlo hhi fun hlt => ?_
  have hle : nameOffset.toNat ≤ h.length.toNat := by
    rwa [UInt32.not_lt, UInt32.le_iff_toNat_le] at hlt
  have hlength : (h.length - nameOffset).toNat = h.length.toNat - nameOffset.toNat :=
    UInt32.toNat_sub_of_le _ _ (UInt32.le_iff_toNat_le.2 hle)
  have hseek : (seek (h.offset + nameOffset.toNat)).Stays image pos h.offset
      (min h.endOffset image.size) := by
    refine stays_seek hlo hhi fun htarget => ?_
    unfold CommandHeader.endOffset
    omega
  refine Stays.bind hseek fun _ middle hmiddle => ?_
  obtain ⟨hlo', hhi'⟩ := hseek.of_yields hmiddle
  obtain ⟨-, rfl⟩ := yields_seek.1 hmiddle
  refine Stays.map (stays_take hlo' hhi' fun hle => ?_) _
  unfold CommandHeader.endOffset
  omega

/-- A table of records that the command covers is read behind its own record. -/
theorem staysIn_table {β : Type} {r : Record} {f : r.Values → α} {g : List α → β} {n base : Nat}
    {e : Error} (hinside : Inside image h (h.offset + base)) :
    StaysIn (if h.length.toNat < base + n * r.size then Reader.fail e
      else Reader.times n (Reader.record r >>= fun v => Pure.pure (f v)) >>= fun as =>
        Pure.pure (g as)) image h (h.offset + base) := by
  obtain ⟨hlo, hhi⟩ := hinside
  refine stays_unless hlo hhi fun hlength => Stays.map ?_ g
  have hcovers : h.offset + base + r.size * n ≤ h.endOffset := by
    rw [Nat.mul_comm]
    unfold CommandHeader.endOffset
    omega
  refine stays_times (fun ha => (yields_record_map.1 ha).2.2) (fun hlo hhi hend => ?_)
    hlo hhi hcovers
  refine Stays.map (stays_record hlo hhi fun hle => ?_) f
  omega

/-- What is read elsewhere in the file leaves the cursor alone. -/
theorem staysIn_readIndirect (hinside : Inside image h pos) (offset count : UInt32) :
    StaysIn (readIndirect offset count) image h pos := by
  unfold readIndirect
  split_ifs
  · exact stays_pure hinside.1 hinside.2 _
  · exact stays_within hinside.1 hinside.2 _

theorem staysIn_readBindings (hinside : Inside image h pos) (offset size : UInt32) :
    StaysIn (readBindings options offset size) image h pos := by
  unfold readBindings
  split_ifs
  · exact stays_pure hinside.1 hinside.2 _
  · exact stays_within hinside.1 hinside.2 _

/-- What follows a reader goes on inside the command. -/
theorem StaysIn.bind {β : Type} {r : Reader α} {f : α → Reader β} (hr : StaysIn r image h pos)
    (hf : ∀ a middle, Inside image h middle → StaysIn (f a) image h middle) :
    StaysIn (r >>= f) image h pos :=
  Stays.bind_of_between hr fun a middle hlo hhi => hf a middle ⟨hlo, hhi⟩

/-- **The reader of a body leaves the cursor inside its command**, failing or not. -/
theorem staysIn_readBody (hoffset : h.offset ≤ image.size) (shape : CommandShape) :
    StaysIn (readBody options h shape) image h h.offset := by
  cases shape with
  | segment | buildVersion =>
    exact staysIn_readRecord_bind hoffset fun _ _ hinside => staysIn_table hinside
  | symtab =>
    refine staysIn_readRecord_bind hoffset fun _ _ hinside => ?_
    exact StaysIn.bind (stays_within hinside.1 hinside.2 _) fun _ _ hinside =>
      Stays.map (stays_note hinside.1 hinside.2 _) _
  | dysymtab =>
    exact staysIn_readRecord_bind hoffset fun _ _ hinside =>
      Stays.map (staysIn_readIndirect hinside _ _) _
  | dylib | path =>
    exact staysIn_readRecord_bind hoffset fun _ _ hinside =>
      Stays.map (staysIn_readName hinside _) _
  | thread =>
    refine staysIn_readRecord_bind hoffset fun _ _ hinside => ?_
    refine stays_unless hinside.1 hinside.2 fun hlength => Stays.map ?_ _
    refine stays_record hinside.1 hinside.2 fun hle => ?_
    have hsize : Record.thread.size = 16 := rfl
    have hstate : Record.armThreadState.size = 68 := rfl
    unfold CommandHeader.endOffset
    omega
  | dyldInfo =>
    refine staysIn_readRecord_bind hoffset fun _ _ hinside => ?_
    refine (staysIn_readBindings hinside _ _).bind fun _ _ hinside => ?_
    refine (staysIn_readBindings hinside _ _).bind fun _ _ hinside => ?_
    refine (staysIn_readBindings hinside _ _).bind fun _ _ hinside => ?_
    exact Stays.map (stays_note hinside.1 hinside.2 _) _
  | uuid | encryption | linkedit | versionMin | main | sourceVersion =>
    exact staysIn_readRecord_map _ hoffset

end Command

/-! ## Entries -/

namespace Entry

variable {pos hi : Nat}

/-- How far a command that is at fault can be read: its first two words if they are not there or
declare a length that does not cover them, and otherwise what it declares. -/
def reach (image : ByteArray) (pos : Nat) : Nat :=
  if image.size < pos + 8 ∨ (lengthAt image pos).toNat < 8 then pos + 8
  else pos + max 8 (lengthAt image pos).toNat

theorem add_eight_le_reach (image : ByteArray) (pos : Nat) : pos + 8 ≤ reach image pos := by
  unfold reach
  split_ifs <;> omega

/-- The reader of a command of a known kind goes back to the start of the command and stays
inside. -/
theorem stays_readKnown {h : CommandHeader} (hoffset : h.offset ≤ image.size)
    (hlo : h.offset ≤ pos) (hhi : pos ≤ hi) (hend : min h.endOffset image.size ≤ hi) :
    (readKnown options h).Stays image pos h.offset hi := by
  have hstart : h.offset ≤ hi := Nat.le_trans hlo hhi
  refine (stays_demand hlo hhi _ _).bind_of_between fun shape _ hlo hhi => ?_
  refine (stays_note hlo hhi _).bind_of_between fun _ _ hlo hhi => ?_
  refine Stays.bind (stays_seek hlo hhi fun _ => ⟨Nat.le_refl _, hstart⟩) fun _ _ hseek => ?_
  obtain ⟨-, rfl⟩ := yields_seek.1 hseek
  have hbody : (Command.readBody options h shape).Stays image h.offset h.offset hi :=
    Stays.mono (Command.staysIn_readBody hoffset shape) (Nat.le_refl _) hend
  refine hbody.bind_of_between fun _ _ hlo hhi => Stays.map (stays_seek hlo hhi fun hle => ?_) _
  exact ⟨Nat.le_add_right .., by omega⟩

/-- The reader of a command of an unknown kind goes to its end. -/
theorem stays_readUnknown {c : SkippedCommand} (hlo : c.offset ≤ pos) (hhi : pos ≤ hi)
    (hend : min (c.offset + c.length.toNat) image.size ≤ hi) :
    (readUnknown c).Stays image pos c.offset hi := by
  refine (stays_note hlo hhi _).bind_of_between fun _ _ hlo hhi => ?_
  refine Stays.map (stays_seek hlo hhi fun hle => ?_) _
  exact ⟨Nat.le_add_right .., by omega⟩

/-- **The reader of an entry leaves the cursor inside the entry**, failing or not. -/
theorem stays_read (hpos : pos ≤ image.size) :
    (Entry.read options).Stays image pos pos (min (reach image pos) image.size) := by
  have hreach := add_eight_le_reach image pos
  have hhi : pos ≤ min (reach image pos) image.size := by omega
  have hsize : Record.commandHeader.size = 8 := rfl
  refine Stays.bind ⟨Nat.le_refl _, hhi⟩ fun start middle hposition => ?_
  obtain ⟨hstart, hmiddle⟩ := yields_position.1 hposition
  rw [hstart, hmiddle]
  refine Stays.bind (stays_record (Nat.le_refl _) hhi fun hle => by omega) fun v _ hrecord => ?_
  obtain ⟨hhead, rfl, rfl⟩ := yields_record.1 hrecord
  have hlo : pos ≤ pos + Record.commandHeader.size := Nat.le_add_right ..
  have hhi : pos + Record.commandHeader.size ≤ min (reach image pos) image.size := by omega
  refine stays_unless hlo hhi fun hshort => ?_
  -- from here on the command declares at least its first two words
  have hend : min (pos + (lengthAt image pos).toNat) image.size ≤
      min (reach image pos) image.size := by
    have hlength : ¬ (lengthAt image pos).toNat < 8 := hshort
    rw [reach, if_neg (by omega)]
    omega
  dsimp only [Record.layout, Record.ofCommand, Layout.readAt, FieldType.readAt_u32]
  cases (Coded.ofCode? (word image pos) : Option CommandId) with
  | none =>
    exact stays_readUnknown (c := ⟨word image pos, lengthAt image pos, pos⟩) hlo hhi hend
  | some id => exact stays_readKnown (h := headerAt image pos id) hpos hlo hhi hend

end Entry

/-! ## Walks -/

namespace Walk

variable {count start : Nat} {e : Error}

/-- **Where a failed walk leaves the cursor.**  A walk that starts inside the image and fails does
so at the command behind those that it met, which cannot be read, and leaves the cursor inside it:
not before its start, nor beyond the end of the image, nor further than eight bytes or, if it has
its first two words and declares a length that covers them, that length. -/
theorem cursor_of_failure (hstart : start ≤ image.size)
    (h : (run options image count start).failure = some e) :
    ∃ o, o = start + ((run options image count start).entries.map fun c => c.length.toNat).sum ∧
      (Entry.read options image o).result = .error e ∧
      o ≤ (run options image count start).cursor ∧
      (run options image count start).cursor ≤ image.size ∧
      (image.size < o + 8 ∨ (lengthAt image o).toNat < 8 →
        (run options image count start).cursor ≤ o + 8) ∧
      (¬ (image.size < o + 8 ∨ (lengthAt image o).toNat < 8) →
        (run options image count start).cursor ≤ o + max 8 (lengthAt image o).toNat) := by
  induction count generalizing start with
  | zero => cases h
  | succ count ih =>
    rcases hread : Entry.read options image start with ⟨e' | entry, cursor, notes⟩
    · have hstays : (Entry.read options).Stays image start start _ := Entry.stays_read hstart
      unfold Reader.Stays at hstays
      rw [hread] at hstays
      rw [run_succ_of_error hread] at h ⊢
      cases h
      obtain ⟨hlo, hhi⟩ := hstays
      refine ⟨start, rfl, congrArg Outcome.result hread, hlo,
        Nat.le_trans hhi (Nat.min_le_right ..), fun hshort => ?_, fun hlong => ?_⟩
      · rw [Entry.reach, if_pos hshort] at hhi
        exact Nat.le_trans hhi (Nat.min_le_left ..)
      · rw [Entry.reach, if_neg hlong] at hhi
        exact Nat.le_trans hhi (Nat.min_le_left ..)
    · have hyields : (Entry.read options).Yields image start entry cursor := by
        rw [Reader.Yields, hread]
        exact ⟨rfl, rfl⟩
      obtain ⟨hentry, rfl⟩ := Entry.yields_read.1 hyields
      rw [run_succ_of_ok hread] at h ⊢
      obtain ⟨o, ho, hrest⟩ := ih hentry.end_le_size h
      refine ⟨o, ?_, hrest⟩
      rw [ho, List.map_cons, List.sum_cons, Nat.add_assoc]

/-- Commands of which one is passed over and the next declares five symbols that start with the
image, which ends within the last of them. -/
def symbolsBeyondImage : ByteArray := ⟨#[
  0x7F, 0, 0, 0, 8, 0, 0, 0,
  0x02, 0, 0, 0, 24, 0, 0, 0, 0, 0, 0, 0, 5, 0, 0, 0, 0, 0, 0, 0, 4, 0, 0, 0,
  0, 0, 0, 0, 0, 0, 0, 0, 0, 0, 0, 0, 0, 0, 0, 0, 0, 0, 0, 0]⟩

theorem symbolsBeyondImage_cursor :
    (run {} symbolsBeyondImage 2 0).failure = some (.bufferTooSmall 60 52) ∧
      (Entry.read {} symbolsBeyondImage 8).result = .error (.bufferTooSmall 60 52) ∧
      8 ≤ (run {} symbolsBeyondImage 2 0).cursor ∧
      (run {} symbolsBeyondImage 2 0).cursor ≤ 32 := by
  have hfailure : (run {} symbolsBeyondImage 2 0).failure = some (.bufferTooSmall 60 52) := by
    decide +kernel
  have hlengths : ((run {} symbolsBeyondImage 2 0).entries.map fun c => c.length.toNat) = [8] := by
    decide +kernel
  have hlength : (lengthAt symbolsBeyondImage 8).toNat = 24 := by decide
  obtain ⟨o, ho, hread, hlo, -, -, hhi⟩ := cursor_of_failure (Nat.zero_le _) hfailure
  rw [hlengths] at ho
  obtain rfl : o = 8 := ho
  have hsize : ¬ symbolsBeyondImage.size < 8 + 8 := by decide
  rw [hlength] at hhi
  exact ⟨hfailure, hread, hlo, hhi (by omega)⟩

end Walk

end MachImage
