import MachImage.Proofs.Command.Tiling
import Mathlib.Data.List.Basic

/-!
# Writing a command back

`Command.encoding?` writes the record of a decoded command from its fields:
the identifier and the length of its header, every number of its body in the
order in which it is stored, and what follows the record.  It is there for each
shape whose fields say all that the record holds.  A segment and its sections
say it but for the bytes after their names and the protections that have no
name (`SegmentCommand.RecordAt`, `SectionHeader.RecordAt`).

What is written is what the file holds (`Walk.stored_of_mem_commands`), so no
decoder mixes up two fields.
-/

namespace MachImage

/-! ## Encodings -/

/-- A segment is the one in the record of a command, which holds more only in the bytes after the
name and in the bits of the protections that have no name. -/
def SegmentCommand.RecordAt (image : ByteArray) (h : CommandHeader) (s : SegmentCommand) : Prop :=
  ∃ (name : Vector UInt8 16) (greatest initial : UInt32),
    window image h.offset Record.segment.size =
      Record.segment.encode
        (Coded.code h.id, h.length, name, s.address, s.size, s.fileOffset, s.fileSize, greatest,
          initial, s.sectionCount, s.flags, ()) ∧
    s.name = Name.ofField name.toList ∧ s.greatestProtection.bits = greatest &&& 7 ∧
    s.initialProtection.bits = initial &&& 7

/-- A section is the one in the record at a position, which holds more only in the bytes after the
names. -/
def SectionHeader.RecordAt (image : ByteArray) (pos : Nat) (s : SectionHeader) : Prop :=
  ∃ name segmentName : Vector UInt8 16,
    window image pos Record.sectionHeader.size =
      Record.sectionHeader.encode
        (name, segmentName, s.address, s.size, s.fileOffset, s.align, s.relocationOffset,
          s.relocationCount, s.flags, s.reserved1, s.reserved2, ()) ∧
    s.name = Name.ofField name.toList ∧ s.segmentName = Name.ofField segmentName.toList

/-- The registers as bytes, in their order. -/
def ArmRegisters.encode (regs : ArmRegisters) : List UInt8 :=
  regs.toList.flatMap fun entry => FieldType.u32.encode entry.2

/-- A tool as bytes. -/
def BuildTool.encode (t : BuildTool) : List UInt8 := Record.buildTool.encode (t.tool, t.version, ())

/-- The bytes of a command, if its fields determine them. -/
def Command.encoding? (c : Command) : Option (List UInt8) :=
  let id := Coded.code c.id
  let length := c.header.length
  match c.body with
  | .symtab s =>
    some (Record.symtab.encode
      (id, length, s.symbolOffset, s.symbolCount, s.nameOffset, s.nameSize, ()))
  | .dysymtab d =>
    some (Record.dysymtab.encode
      (id, length, d.localStart, d.localCount, d.definedStart, d.definedCount, d.undefinedStart,
        d.undefinedCount, d.contentsOffset, d.contentsCount, d.moduleOffset, d.moduleCount,
        d.referenceOffset, d.referenceCount, d.indirectOffset, d.indirectCount,
        d.externalRelocationOffset, d.externalRelocationCount, d.localRelocationOffset,
        d.localRelocationCount, ()))
  | .uuid bytes => some (Record.uuid.encode (id, length, bytes, ()))
  | .thread t =>
    some (Record.thread.encode (id, length, t.flavor, t.wordCount, ()) ++ t.registers.encode)
  | .encryption e =>
    some (Record.encryptionInfo.encode (id, length, e.fileOffset, e.size, e.scheme, ()))
  | .linkedit l => some (Record.linkeditData.encode (id, length, l.fileOffset, l.size, ()))
  | .versionMin v => some (Record.versionMin.encode (id, length, v.version, v.kit, ()))
  | .dyldInfo d =>
    some (Record.dyldInfo.encode
      (id, length, d.rebaseOffset, d.rebaseSize, d.bindOffset, d.bindSize, d.weakBindOffset,
        d.weakBindSize, d.lazyBindOffset, d.lazyBindSize, d.exportOffset, d.exportSize, ()))
  | .main m => some (Record.entryPoint.encode (id, length, m.entryOffset, m.stackSize, ()))
  | .sourceVersion version => some (Record.sourceVersion.encode (id, length, version, ()))
  | .buildVersion b =>
    some (Record.buildVersion.encode
      (id, length, b.platform, b.leastVersion, b.kit, UInt32.ofNat b.tools.length, ()) ++
        b.tools.flatMap BuildTool.encode)
  | .segment _ | .dylib _ | .path _ => none

/-! ## Tables -/

/-- The windows of a table, one after the other, are one. -/
theorem flatMap_window (image : ByteArray) (pos k n : Nat) :
    ((List.range n).flatMap fun i => window image (pos + k * i) k) = window image pos (k * n) := by
  induction n with
  | zero => simp [window_eq]
  | succ n ih =>
    rw [List.range_succ, List.flatMap_append, ih, List.flatMap_singleton, window_append,
      Nat.mul_succ]

/-- The registers are written as the record that holds them. -/
theorem ArmRegisters.encode_eq (regs : ArmRegisters) :
    regs.encode =
      Record.armThreadState.encode (regs.r, regs.sp, regs.lr, regs.pc, regs.cpsr, ()) := by
  have hlength : regs.values.length ≤ names.length := by
    rw [values, List.length_append, Vector.length_toList]
    exact Nat.le_refl _
  have hvalues : regs.toList.map Prod.snd = regs.values := List.map_snd_zip hlength
  rw [encode, ← List.flatMap_map, hvalues, values, List.flatMap_append]
  rfl

namespace Command

variable {options : Options} {image : ByteArray} {pos : Nat}

theorem encode_toolAt (hle : pos + 8 ≤ image.size) :
    (toolAt image pos).encode = window image pos 8 :=
  Record.buildTool.encode_readAt hle

theorem encode_registersAt (hle : pos + 68 ≤ image.size) :
    (registersAt image pos).encode = window image pos 68 := by
  rw [ArmRegisters.encode_eq]
  exact Record.armThreadState.encode_readAt hle

theorem recordAt_sectionAt (hle : pos + 68 ≤ image.size) :
    (sectionAt image pos).RecordAt image pos :=
  ⟨_, _, (Record.sectionHeader.encode_readAt hle).symm, rfl, rfl⟩

/-! ## Bodies -/

/-- Bytes that are a window are those that lie there. -/
theorem window_of_eq_window {bs : List UInt8} {n : Nat} (hle : pos + n ≤ image.size)
    (h : bs = window image pos n) : window image pos bs.length = bs := by
  have hlength : bs.length = n := by
    rw [h, length_window]
    omega
  rw [hlength, h]

variable {id : CommandId} {shape : CommandShape}

/-- The record of a command, written from its fields, is the one that lies there. -/
theorem encode_record (r : Record) {v : r.Values}
    (hend : pos + (lengthAt image pos).toNat ≤ image.size)
    (hsize : r.size ≤ (lengthAt image pos).toNat) (hv : v = r.layout.readAt image pos) :
    r.encode v = window image pos r.size := by
  rw [hv]
  exact r.encode_readAt (by omega)

theorem window_of_record (r : Record) {v : r.Values} {bs : List UInt8}
    (hend : pos + (lengthAt image pos).toNat ≤ image.size)
    (hsize : r.size ≤ (lengthAt image pos).toNat) (hbs : some (r.encode v) = some bs)
    (hv : v = r.layout.readAt image pos) : window image pos bs.length = bs := by
  cases hbs
  exact window_of_eq_window (show pos + r.size ≤ image.size by omega)
    (encode_record r hend hsize hv)

theorem encode_tools (pos count : Nat) (hle : pos + 8 * count ≤ image.size) :
    ((List.range count).map fun k => toolAt image (pos + 8 * k)).flatMap BuildTool.encode =
      window image pos (8 * count) := by
  rw [List.flatMap_map, ← flatMap_window]
  refine List.flatMap_congr fun k hk => encode_toolAt ?_
  have hlt := List.mem_range.1 hk
  omega

/-- The platform is written as its record and the tools that follow it. -/
theorem encode_buildVersionAt (hid : Coded.code id = word image pos)
    (hend : pos + (lengthAt image pos).toNat ≤ image.size)
    (hfits : CommandShape.buildVersion.Fits options image pos (lengthAt image pos).toNat) :
    Record.buildVersion.encode
        (Coded.code id, lengthAt image pos, (buildVersionAt image pos).platform,
          (buildVersionAt image pos).leastVersion, (buildVersionAt image pos).kit,
          UInt32.ofNat (buildVersionAt image pos).tools.length, ()) ++
      (buildVersionAt image pos).tools.flatMap BuildTool.encode =
        window image pos (24 + 8 * (word image (pos + 20)).toNat) := by
  rw [CommandShape.Fits] at hfits
  have hcount : UInt32.ofNat (buildVersionAt image pos).tools.length = word image (pos + 20) := by
    rw [tools_buildVersionAt, List.length_map, List.length_range, UInt32.ofNat_toNat]
  have hrecord : Record.buildVersion.encode
      (Coded.code id, lengthAt image pos, (buildVersionAt image pos).platform,
        (buildVersionAt image pos).leastVersion, (buildVersionAt image pos).kit,
        word image (pos + 20), ()) = window image pos 24 :=
    encode_record .buildVersion hend (show 24 ≤ _ by omega) (Prod.ext hid rfl)
  have htools : (buildVersionAt image pos).tools.flatMap BuildTool.encode =
      window image (pos + 24) (8 * (word image (pos + 20)).toNat) := by
    rw [tools_buildVersionAt]
    exact encode_tools (pos + 24) (word image (pos + 20)).toNat (by omega)
  rw [hcount, hrecord, htools, window_append]

/-- The state of the processor is written as its record and the registers that follow it. -/
theorem encode_threadAt (hid : Coded.code id = word image pos)
    (hend : pos + (lengthAt image pos).toNat ≤ image.size)
    (hfits : CommandShape.thread.Fits options image pos (lengthAt image pos).toNat) :
    Record.thread.encode
        (Coded.code id, lengthAt image pos, word image (pos + 8), word image (pos + 12), ()) ++
      (registersAt image (pos + 16)).encode = window image pos 84 := by
  rw [CommandShape.Fits] at hfits
  have hrecord : Record.thread.encode
      (Coded.code id, lengthAt image pos, word image (pos + 8), word image (pos + 12), ()) =
        window image pos 16 :=
    encode_record .thread hend (show 16 ≤ _ by omega) (Prod.ext hid rfl)
  rw [hrecord, encode_registersAt (by omega), window_append]

/-- What is written from the fields of a decoded command is what lies at its place. -/
theorem window_of_encoding? {bs : List UInt8} (hid : Coded.code id = word image pos)
    (hend : pos + (lengthAt image pos).toNat ≤ image.size)
    (hfits : shape.Fits options image pos (lengthAt image pos).toNat)
    (hbs : (Command.mk (headerAt image pos id)
      (bodyAt options image (headerAt image pos id) shape)).encoding? = some bs) :
    window image pos bs.length = bs := by
  cases shape with
  | segment => cases hbs
  | symtab => exact window_of_record .symtab hend hfits.1 hbs (Prod.ext hid rfl)
  | dysymtab => exact window_of_record .dysymtab hend hfits.1 hbs (Prod.ext hid rfl)
  | dylib => cases hbs
  | path => cases hbs
  | uuid => exact window_of_record .uuid hend hfits hbs (Prod.ext hid rfl)
  | thread =>
    have hencode := encode_threadAt hid hend hfits
    rw [CommandShape.Fits] at hfits
    exact window_of_eq_window (by omega) ((Option.some.inj hbs).symm.trans hencode)
  | encryption => exact window_of_record .encryptionInfo hend hfits hbs (Prod.ext hid rfl)
  | linkedit => exact window_of_record .linkeditData hend hfits hbs (Prod.ext hid rfl)
  | versionMin => exact window_of_record .versionMin hend hfits hbs (Prod.ext hid rfl)
  | dyldInfo => exact window_of_record .dyldInfo hend hfits.1 hbs (Prod.ext hid rfl)
  | main => exact window_of_record .entryPoint hend hfits hbs (Prod.ext hid rfl)
  | sourceVersion => exact window_of_record .sourceVersion hend hfits hbs (Prod.ext hid rfl)
  | buildVersion =>
    have hencode := encode_buildVersionAt hid hend hfits
    rw [CommandShape.Fits] at hfits
    exact window_of_eq_window (by omega) ((Option.some.inj hbs).symm.trans hencode)

theorem bits_ofBits_protectionFlags (bits : UInt32) :
    (Flags.ofBits protectionFlags bits).bits = bits &&& 7 := by
  have hmask : protectionFlags.mask = 7 := by decide
  rw [Flags.ofBits, hmask]

/-- The fields of a decoded segment are those of the record that lies at its place. -/
theorem recordAt_segmentAt (hid : Coded.code id = word image pos)
    (hend : pos + (lengthAt image pos).toNat ≤ image.size)
    (hfits : CommandShape.segment.Fits options image pos (lengthAt image pos).toNat) :
    (segmentAt image pos).RecordAt image (headerAt image pos id) := by
  rw [CommandShape.Fits] at hfits
  refine ⟨(FieldType.bytes 16).readAt image (pos + 8), word image (pos + 40),
    word image (pos + 44), Eq.symm ?_, rfl, bits_ofBits_protectionFlags _,
    bits_ofBits_protectionFlags _⟩
  exact encode_record .segment hend (show 56 ≤ (lengthAt image pos).toNat by omega)
    (Prod.ext hid rfl)

/-- The fields of a section of a decoded segment are those of its record behind the segment's. -/
theorem recordAt_sections (hend : pos + (lengthAt image pos).toNat ≤ image.size)
    (hfits : CommandShape.segment.Fits options image pos (lengthAt image pos).toNat) {k : Nat}
    (hk : k < (segmentAt image pos).sections.length) :
    (segmentAt image pos).sections[k].RecordAt image (pos + 56 + 68 * k) := by
  rw [CommandShape.Fits] at hfits
  have hlt := hk
  rw [sections_segmentAt, List.length_map, List.length_range] at hlt
  simp only [sections_segmentAt, List.getElem_map, List.getElem_range]
  exact recordAt_sectionAt (by omega)

end Command

namespace Walk

/-- **Decoded commands are what lies at their places.**  A command has the shape of its kind; where
its fields say all that its record holds, they written back are the bytes there; and a segment and
each of its sections are those of their records. -/
theorem stored_of_mem_commands {options : Options} {image : ByteArray} {count start : Nat}
    {c : Command} (hc : c ∈ (run options image count start).commands) :
    c.id.shape? = some c.body.shape ∧
      (∀ bs, c.encoding? = some bs → window image c.header.offset bs.length = bs) ∧
      ∀ s, c.body = .segment s →
        s.RecordAt image c.header ∧ s.sections.length = s.sectionCount.toNat ∧
          ∀ k (hk : k < s.sections.length),
            s.sections[k].RecordAt image (c.header.offset + 56 + 68 * k) := by
  have hentry := entryAt_of_mem (mem_commands_iff.1 hc)
  generalize hpos : (Entry.decoded c).offset = pos at hentry
  cases hentry with
  | @decoded id shape _ hend hid hshape hfits =>
    have hcode := Coded.ofCode?_eq_some_iff.1 hid
    refine ⟨?_, fun bs hbs => Command.window_of_encoding? hcode hend hfits hbs, fun s hs => ?_⟩
    · rw [Command.shape_bodyAt]
      exact hshape
    · obtain ⟨rfl, rfl⟩ := Command.eq_segmentAt_of_bodyAt hs
      refine ⟨Command.recordAt_segmentAt hcode hend hfits, ?_,
        fun k hk => Command.recordAt_sections hend hfits hk⟩
      rw [Command.sections_segmentAt, List.length_map, List.length_range, Command.segmentAt]

/-- The bytes of a segment with one section, and of a platform with one tool. -/
def segmentAndPlatform : ByteArray := ⟨#[
  1, 0, 0, 0, 124, 0, 0, 0, 95, 95, 84, 69, 88, 84, 0, 0, 0, 0, 0, 0, 0, 0, 0, 0,
  0, 16, 0, 0, 0, 32, 0, 0, 0, 0, 0, 0, 0, 32, 0, 0, 0xFF, 0, 0, 0, 5, 0, 0, 0,
  1, 0, 0, 0, 0, 0, 0, 0,
  95, 95, 116, 101, 120, 116, 0, 0, 0, 0, 0, 0, 0, 0, 0, 0,
  95, 95, 84, 69, 88, 84, 0, 0, 0, 0, 0, 0, 0, 0, 0, 0,
  0, 16, 0, 0, 4, 0, 0, 0, 0, 1, 0, 0, 2, 0, 0, 0, 0, 0, 0, 0, 0, 0, 0, 0, 0, 4, 0, 0x80,
  0, 0, 0, 0, 0, 0, 0, 0,
  0x32, 0, 0, 0, 32, 0, 0, 0, 2, 0, 0, 0, 0, 0, 10, 0, 0, 0, 11, 0, 1, 0, 0, 0,
  3, 0, 0, 0, 0, 1, 0, 0]⟩

set_option maxRecDepth 4000 in
theorem stored_segmentAndPlatform :
    ∃ s b,
      (run {} segmentAndPlatform 2 0).commands =
        [⟨⟨.segment, 124, 0⟩, .segment s⟩, ⟨⟨.buildVersion, 32, 124⟩, .buildVersion b⟩] ∧
      s.RecordAt segmentAndPlatform ⟨.segment, 124, 0⟩ ∧
      s.sections.length = s.sectionCount.toNat ∧
      ∃ bs, (Command.mk ⟨.buildVersion, 32, 124⟩ (.buildVersion b)).encoding? = some bs ∧
        window segmentAndPlatform 124 bs.length = bs := by
  obtain ⟨s, b, hcommands⟩ : ∃ s b, (run {} segmentAndPlatform 2 0).commands =
      [⟨⟨.segment, 124, 0⟩, .segment s⟩, ⟨⟨.buildVersion, 32, 124⟩, .buildVersion b⟩] :=
    ⟨_, _, rfl⟩
  have hsegment := stored_of_mem_commands (by rw [hcommands]; exact List.mem_cons_self)
  have hplatform := stored_of_mem_commands
    (by rw [hcommands]; exact List.mem_cons_of_mem _ List.mem_cons_self)
  obtain ⟨hrecord, hlength, -⟩ := hsegment.2.2 s rfl
  exact ⟨s, b, hcommands, hrecord, hlength, _, rfl, hplatform.2.1 _ rfl⟩

end Walk

end MachImage
