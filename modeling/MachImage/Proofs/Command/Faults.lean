import MachImage.Proofs.Command.Bindings
import MachImage.Proofs.Header

/-!
# What is wrong with a command

`EntryFault` is the counterpart of `EntryAt`: it lists what can be wrong with
the entry at a position, so that a reader of an entry which fails fails with one
of these causes (`Entry.fault_of_fails`).

Some causes blame a bind stream.  Among all readers only that of the loader's
tables can fail so, and only where it reads the streams: `NoStreamFault` is put
together along the readers of all other bodies.  Before the streams are read the
record which declares them has been, so that `EntryFault.of_stream` can tell
what lies at the place of such a fault.
-/

namespace MachImage

variable {options bare : Options} {image : ByteArray} {pos cursor : Nat} {e : Error}

/-! ## Readers that blame no stream -/

namespace Reader

variable {α β : Type}

/-- A reader never fails for a bind stream that cannot be read. -/
def NoStreamFault (r : Reader α) : Prop :=
  ∀ image pos e cursor, r.Fails image pos e cursor → e.isBindStreamError = false

theorem noStreamFault_pure (a : α) : (Pure.pure a : Reader α).NoStreamFault := by
  intro image pos e cursor h
  exact absurd h not_fails_pure

theorem noStreamFault_note (n : Note) : (note n).NoStreamFault := by
  intro image pos e cursor h
  exact absurd h not_fails_note

theorem noStreamFault_position : position.NoStreamFault := by
  intro image pos e cursor h
  exact absurd h not_fails_position

theorem noStreamFault_seek (target : Nat) : (seek target).NoStreamFault := by
  intro image pos e cursor h
  obtain ⟨-, rfl, -⟩ := fails_seek.1 h
  rfl

theorem noStreamFault_take (n : Nat) (view : ByteArray → Nat → α) :
    (take n view).NoStreamFault := by
  intro image pos e cursor h
  obtain ⟨-, rfl, -⟩ := fails_take.1 h
  rfl

namespace NoStreamFault

theorem bind {r : Reader α} {f : α → Reader β} (hr : r.NoStreamFault)
    (hf : ∀ a, (f a).NoStreamFault) : (r >>= f).NoStreamFault := by
  intro image pos e cursor h
  rcases fails_bind.1 h with h | ⟨a, middle, -, h⟩
  · exact hr image pos e cursor h
  · exact hf a image middle e cursor h

theorem map {r : Reader α} (hr : r.NoStreamFault) (f : α → β) :
    (r >>= fun a => Pure.pure (f a)).NoStreamFault :=
  hr.bind fun a => noStreamFault_pure (f a)

theorem checked {c : Prop} [Decidable c] {e : Error} {r : Reader α}
    (he : e.isBindStreamError = false) (hr : r.NoStreamFault) :
    (if c then fail e else r).NoStreamFault := by
  intro image pos e' cursor h
  rcases fails_unless.1 h with ⟨-, rfl, -⟩ | ⟨-, h⟩
  · exact he
  · exact hr image pos e' cursor h

theorem within {r : Reader α} (hr : r.NoStreamFault) : (within r).NoStreamFault := by
  intro image pos e cursor h
  obtain ⟨middle, h⟩ := result_eq_error_iff.1 (fails_within.1 h).1
  exact hr image pos e middle h

theorem times {r : Reader α} (hr : r.NoStreamFault) (n : Nat) : (times n r).NoStreamFault := by
  induction n with
  | zero => exact noStreamFault_pure []
  | succ n ih => exact hr.bind fun _ => ih.map _

end NoStreamFault

theorem noStreamFault_bytes (n : Nat) : (bytes n).NoStreamFault := noStreamFault_take n _

theorem noStreamFault_record (r : Record) : (record r).NoStreamFault :=
  (noStreamFault_bytes r.size).map _

end Reader

open Reader

/-! ## Headers, bodies and entries -/

theorem Header.noStreamFault_read : Header.read.NoStreamFault := by
  intro image pos e cursor h
  rcases fails_bind.1 h with h | ⟨⟨⟩, middle, -, h⟩
  · obtain ⟨⟨-, rfl⟩ | ⟨-, hmagic⟩, -⟩ := fails_validate.1 h
    · rfl
    · exact (ne_of_checkMagic hmagic).2.2
  · rcases fails_bind.1 h with h | ⟨v, middle', -, h⟩
    · exact noStreamFault_record _ image middle e cursor h
    · obtain ⟨hkind, -⟩ := fails_ofRecord h
      cases e <;> first | rfl | cases hkind

namespace Command

variable {h : CommandHeader} {shape : CommandShape}

theorem noStreamFault_readRecord (h : CommandHeader) (r : Record) :
    (readRecord h r).NoStreamFault :=
  (noStreamFault_record r).checked rfl

theorem noStreamFault_readName (h : CommandHeader) (nameOffset : UInt32) :
    (readName h nameOffset).NoStreamFault :=
  ((noStreamFault_seek _).bind fun _ => (noStreamFault_bytes _).map _).checked rfl

theorem noStreamFault_readIndirect (offset count : UInt32) :
    (readIndirect offset count).NoStreamFault := by
  unfold readIndirect
  split_ifs
  · exact noStreamFault_pure []
  · exact ((noStreamFault_seek _).bind fun _ => (noStreamFault_bytes _).map _).within

theorem noStreamFault_readEntry (names : ByteArray) : (SymbolEntry.read names).NoStreamFault := by
  refine noStreamFault_position.bind fun start => (noStreamFault_record _).bind fun v => ?_
  refine NoStreamFault.map ?_ _
  unfold SymbolEntry.readName
  split_ifs
  · exact noStreamFault_pure _
  · exact noStreamFault_pure _
  · exact (noStreamFault_note _).bind fun _ => noStreamFault_pure _

/-- Without their streams the tables of the loader are a record like any other. -/
theorem readDyldInfo_eq (hbare : bare.bindInfo = false) (h : CommandHeader) :
    ∃ n : Record.dyldInfo.Values → Note, ∃ body : Record.dyldInfo.Values → CommandBody,
      readDyldInfo bare h = (do
        let v ← readRecord h .dyldInfo
        Reader.note (n v)
        return body v) := by
  unfold readDyldInfo readBindings
  simp only [hbare, Bool.not_false, Bool.or_true, if_true, pure_bind]
  exact ⟨_, _, rfl⟩

/-- Only the tables of the loader blame a stream, and only if the streams are read. -/
theorem noStreamFault_readBody (hsafe : options.bindInfo = false ∨ shape ≠ .dyldInfo) :
    (readBody options h shape).NoStreamFault := by
  cases shape with
  | segment =>
    exact (noStreamFault_readRecord h _).bind fun _ =>
      ((((noStreamFault_record _).map _).times _).map _).checked rfl
  | symtab =>
    refine (noStreamFault_readRecord h _).bind fun _ => NoStreamFault.bind ?_ fun _ =>
      (noStreamFault_note _).bind fun _ => noStreamFault_pure _
    exact ((noStreamFault_seek _).bind fun _ => (noStreamFault_take _ _).bind fun names =>
      (noStreamFault_seek _).bind fun _ => (noStreamFault_readEntry names).times _).within
  | dysymtab =>
    exact (noStreamFault_readRecord h _).bind fun _ => (noStreamFault_readIndirect _ _).map _
  | dylib => exact (noStreamFault_readRecord h _).bind fun _ => (noStreamFault_readName h _).map _
  | path => exact (noStreamFault_readRecord h _).bind fun _ => (noStreamFault_readName h _).map _
  | thread =>
    exact (noStreamFault_readRecord h _).bind fun _ => ((noStreamFault_record _).map _).checked rfl
  | buildVersion =>
    exact (noStreamFault_readRecord h _).bind fun _ =>
      ((((noStreamFault_record _).map _).times _).map _).checked rfl
  | dyldInfo =>
    obtain ⟨n, body, hread⟩ := readDyldInfo_eq (hsafe.resolve_right fun hne => hne rfl) h
    rw [readBody, hread]
    exact (noStreamFault_readRecord h _).bind fun v => (noStreamFault_note _).map _
  | _ => exact (noStreamFault_readRecord h _).map _

end Command

/-! ## Entries -/

/-- What can be wrong with the entry at a position. -/
inductive EntryFault (options : Options) (image : ByteArray) (pos : Nat) : Error → Prop where
  /-- Its first two words are not there. -/
  | missing (hend : image.size < pos + 8) :
      EntryFault options image pos (.bufferTooSmall (min (pos + 8) lastPosition) image.size)
  /-- It is too short for them. -/
  | short (hhead : pos + 8 ≤ image.size) (hlength : (lengthAt image pos).toNat < 8) :
      EntryFault options image pos (.commandTooSmall pos (lengthAt image pos))
  | unsupported {id : CommandId} (hhead : pos + 8 ≤ image.size)
      (hid : Coded.ofCode? (word image pos) = some id) (hshape : id.shape? = none) :
      EntryFault options image pos (.unsupportedCommand id pos)
  /-- Its body cannot be read. -/
  | body {id : CommandId} {shape : CommandShape} {e : Error} (hhead : pos + 8 ≤ image.size)
      (hlength : 8 ≤ (lengthAt image pos).toNat)
      (hid : Coded.ofCode? (word image pos) = some id) (hshape : id.shape? = some shape)
      (hbody : (Command.readBody options (headerAt image pos id) shape image pos).result =
        .error e) :
      EntryFault options image pos e
  /-- It does not end inside the image. -/
  | beyond (hhead : pos + 8 ≤ image.size) (hlength : 8 ≤ (lengthAt image pos).toNat)
      (hend : image.size < pos + (lengthAt image pos).toNat) :
      EntryFault options image pos
        (.bufferTooSmall (pos + (lengthAt image pos).toNat) image.size)

theorem Entry.fails_readUnknown {c : SkippedCommand}
    (h : (readUnknown c).Fails image pos e cursor) :
    image.size < c.offset + c.length.toNat ∧
      e = .bufferTooSmall (c.offset + c.length.toNat) image.size := by
  rcases fails_bind.1 h with h | ⟨-, middle, -, h⟩
  · exact absurd h not_fails_note
  · rcases fails_bind.1 h with h | ⟨-, middle', -, h⟩
    · exact ⟨(fails_seek.1 h).1, (fails_seek.1 h).2.1⟩
    · exact absurd h not_fails_pure

theorem Entry.fails_readKnown {h : CommandHeader} (hoffset : h.offset ≤ image.size)
    (hfails : (readKnown options h).Fails image pos e cursor) :
    h.id.shape? = none ∧ e = .unsupportedCommand h.id h.offset ∨
      (∃ shape, h.id.shape? = some shape ∧
        (Command.readBody options h shape image h.offset).result = .error e) ∨
      image.size < h.endOffset ∧ e = .bufferTooSmall h.endOffset image.size := by
  rcases fails_demand_bind.1 hfails with ⟨hshape, he, -⟩ | ⟨shape, hshape, hrest⟩
  · exact Or.inl ⟨hshape, he⟩
  right
  rcases fails_bind.1 hrest with hnote | ⟨⟨⟩, place, hnote, hrest⟩
  · exact absurd hnote not_fails_note
  rcases fails_bind.1 hrest with hseek | ⟨⟨⟩, start, hseek, hrest⟩
  · obtain ⟨hlt, -⟩ := fails_seek.1 hseek
    omega
  obtain ⟨-, rfl⟩ := yields_seek.1 hseek
  rcases fails_bind.1 hrest with hbody | ⟨body, stop, -, hrest⟩
  · exact Or.inl ⟨shape, hshape, hbody.1⟩
  rcases fails_bind.1 hrest with hseek | ⟨-, stop', -, hlast⟩
  · obtain ⟨hlt, he, -⟩ := fails_seek.1 hseek
    exact Or.inr ⟨hlt, he⟩
  · exact absurd hlast not_fails_pure

/-- **A reader of an entry that fails says what is wrong with the entry.** -/
theorem Entry.fault_of_fails (h : (Entry.read options).Fails image pos e cursor) :
    EntryFault options image pos e := by
  rcases fails_bind.1 h with hposition | ⟨start, place, hposition, hrest⟩
  · exact absurd hposition not_fails_position
  obtain ⟨hstart, hplace⟩ := yields_position.1 hposition
  rw [hstart, hplace] at hrest
  rcases fails_bind.1 hrest with hrecord | ⟨v, middle, hrecord, hrest⟩
  · obtain ⟨hend, rfl, -⟩ := fails_bytes_map.1 hrecord
    exact .missing hend
  obtain ⟨hhead, rfl, rfl⟩ := yields_record.1 hrecord
  have hoffset : pos ≤ image.size := Nat.le_trans (Nat.le_add_right _ _) hhead
  rcases fails_unless.1 hrest with ⟨hshort, rfl, -⟩ | ⟨hlength, hrest⟩
  · exact .short hhead hshort
  have hlength : 8 ≤ (lengthAt image pos).toNat := Nat.le_of_not_lt hlength
  dsimp only [Record.layout, Record.ofCommand, Layout.readAt, FieldType.readAt_u32] at hrest
  cases hid : (Coded.ofCode? (word image pos) : Option CommandId) with
  | none =>
    simp only [hid] at hrest
    obtain ⟨hend, rfl⟩ := fails_readUnknown hrest
    exact .beyond hhead hlength hend
  | some id =>
    simp only [hid] at hrest
    rcases fails_readKnown hoffset hrest with ⟨hshape, rfl⟩ | ⟨shape, hshape, hbody⟩ | ⟨hend, rfl⟩
    · exact .unsupported hhead hid hshape
    · exact .body hhead hlength hid hshape hbody
    · exact .beyond hhead hlength hend

/-- What lies at the place of a command whose bind streams are to be read. -/
structure DeclaresStreams (image : ByteArray) (pos : Nat) (id : CommandId) : Prop where
  id_eq : Coded.ofCode? (word image pos) = some id
  shape_eq : id.shape? = some .dyldInfo
  /-- The command is long enough for the record that declares the streams, -/
  le_length : Record.dyldInfo.size ≤ (lengthAt image pos).toNat
  /-- and the record is there. -/
  le_size : pos + Record.dyldInfo.size ≤ image.size

/-- **Where a stream is blamed, one was to be read.** -/
theorem EntryFault.of_stream (h : EntryFault options image pos e)
    (he : e.isBindStreamError = true) :
    options.bindInfo = true ∧ ∃ id, DeclaresStreams image pos id := by
  cases h with
  | missing | short | unsupported | beyond => cases he
  | @body id shape _ hhead hlength hid hshape hbody =>
    obtain ⟨cursor, hfails⟩ := result_eq_error_iff.1 hbody
    by_cases hsafe : options.bindInfo = false ∨ shape ≠ .dyldInfo
    · have hnot := Command.noStreamFault_readBody hsafe image pos e cursor hfails
      rw [he] at hnot
      cases hnot
    obtain ⟨hinfo, hdyld⟩ := not_or.1 hsafe
    obtain rfl : shape = .dyldInfo := by simpa using hdyld
    -- the record is read before its streams, and no stream is blamed by then
    have hrecord : Record.dyldInfo.size ≤ (lengthAt image pos).toNat ∧
        pos + Record.dyldInfo.size ≤ image.size := by
      rcases fails_bind.1 hfails with hrecord | ⟨v, middle, hrecord, -⟩
      · have hnot := Command.noStreamFault_readRecord _ _ image pos e cursor hrecord
        rw [he] at hnot
        cases hnot
      · obtain ⟨hlength, hrecord⟩ := yields_unless.1 hrecord
        exact ⟨Nat.le_of_not_lt hlength, (yields_record.1 hrecord).1⟩
    exact ⟨by simpa using hinfo, id, hid, hshape, hrecord.1, hrecord.2⟩

end MachImage
