import MachImage.Proofs.Image.Contents
import MachImage.Proofs.Image.Numbering

/-!
# Segments as their commands say

Each segment command of a file becomes a segment, in the order of the commands,
and each record of a section in it becomes a section, in the order of the
records.

* The name of a segment is found in one of three places
  (`SegmentCommand.KnownAs`): in its command, in the record of its first section,
  or nowhere, and then it is the name for segments that have none.  It is never
  empty.
* The contents are the bytes of the file that the command names, if they are read
  (`Segment.readContents_eq_ok_iff`).
* The sections have the fields of their records, except that each is in the
  segment that holds it, whatever segment its record names
  (`Segment.mirrors_ofCommand`).  What a section holds is the low byte of its
  flags, and its attributes are the other bits that have a name
  (`SectionType.ofFlags?_eq_some_iff`, `testBit_attributesOfFlags`).

`Image.segmentsMirrored_of_parse` says this of all segments of an image.
-/

namespace MachImage

variable {options : Options} {image : ByteArray}

/-! ## The name of a segment -/

/-- A segment is known by the name of its command.  If that is empty, it is known by the name of the
segment that its first section records, and else as a segment without a name. -/
structure SegmentCommand.KnownAs (c : SegmentCommand) (name : String) : Prop where
  of_command : c.name ≠ "" → name = c.name
  of_first_section : c.name = "" → ∀ first, c.sections.head? = some first →
    first.segmentName ≠ "" → name = first.segmentName
  of_neither : c.name = "" → (∀ first, c.sections.head? = some first → first.segmentName = "") →
    name = "*NONAME*"
  ne_empty : name ≠ ""

theorem SegmentCommand.knownAs_displayName (c : SegmentCommand) :
    c.KnownAs (Segment.displayName c) := by
  unfold Segment.displayName
  by_cases hname : c.name = ""
  · rw [if_neg (not_not.2 hname)]
    cases hsections : c.sections with
    | nil => constructor <;> simp [hname, hsections, Segment.unnamed]
    | cons first rest =>
      by_cases hfirst : first.segmentName = ""
      · constructor <;> simp [hname, hsections, hfirst, Segment.unnamed]
      · constructor <;> simp [hname, hsections, hfirst]
  · rw [if_pos hname]
    constructor <;> simp [hname]

/-! ## Types and attributes -/

/-- A section holds what the low byte of its flags is the number of. -/
theorem SectionType.ofFlags?_eq_some_iff {flags : UInt32} {type : SectionType} :
    ofFlags? flags = some type ↔ (Coded.code type : UInt8).toNat = flags.toNat % 256 := by
  have hlow : flags.toUInt8.toNat = flags.toNat % 256 := UInt32.toNat_toUInt8 flags
  rw [ofFlags?, Coded.ofCode?_eq_some_iff, ← UInt8.toNat_inj, hlow]

/-- Of a word, exactly the bits that have a name are kept as flags. -/
theorem Flags.testBit_ofBits (f : FlagFamily) (bits : UInt32) (i : Nat) :
    (ofBits f bits).bits.toNat.testBit i = (bits.toNat.testBit i && f.mask.toNat.testBit i) := by
  rw [ofBits, UInt32.toNat_and, Nat.testBit_and]

/-- The bits of the flags of a section that are attributes of it. -/
def attributeBits : List Nat := [8, 9, 10, 25, 26, 27, 28, 29, 30, 31]

/-- A bit of the flags of a section is kept as an attribute exactly if it is one of those above. -/
theorem testBit_attributesOfFlags (flags : UInt32) (i : Nat) :
    (attributesOfFlags flags).bits.toNat.testBit i
      = (flags.toNat.testBit i && attributeBits.contains i) := by
  -- no attribute is in the low byte, so that masking it first changes nothing
  have hmask : (0xFFFFFF00 &&& sectionAttributes.mask).toNat = 0xFE000700 := by decide
  have hbit : Nat.testBit 0xFE000700 i = attributeBits.contains i := by
    by_cases hi : i < 32
    · exact (by decide : ∀ j : Fin 32,
        Nat.testBit 0xFE000700 j = attributeBits.contains j.val) ⟨i, hi⟩
    · have hbeyond : attributeBits.contains i = false := by
        simp [attributeBits]
        omega
      rw [hbeyond]
      exact Nat.testBit_lt_two_pow
        (Nat.lt_of_lt_of_le (by decide) (Nat.pow_le_pow_right (by decide) (Nat.le_of_not_lt hi)))
  rw [attributesOfFlags, Flags.testBit_ofBits, UInt32.toNat_and, Nat.testBit_and, Bool.and_assoc,
    ← Nat.testBit_and, ← UInt32.toNat_and, hmask, hbit]

/-! ## The sections -/

/-- A section has all fields of a record, with its type and its attributes read from the flags. -/
structure Section.Mirrors (s : Section) (h : SectionHeader) : Prop where
  name_eq : s.name = h.name
  address_eq : s.address = h.address
  size_eq : s.size = h.size
  fileOffset_eq : s.fileOffset = h.fileOffset
  align_eq : s.align = h.align
  relocationOffset_eq : s.relocationOffset = h.relocationOffset
  relocationCount_eq : s.relocationCount = h.relocationCount
  /-- It is of the type whose number is the low byte of the flags, or of none. -/
  type_eq : ∀ type, s.type = some type ↔ (Coded.code type : UInt8).toNat = h.flags.toNat % 256
  /-- Its attributes are those bits of the flags that have a name. -/
  attributes_eq : ∀ i, s.attributes.bits.toNat.testBit i =
    (h.flags.toNat.testBit i && attributeBits.contains i)
  reserved1_eq : s.reserved1 = h.reserved1
  reserved2_eq : s.reserved2 = h.reserved2

theorem Section.mirrors_ofHeader (number : Nat) (segment : String) (h : SectionHeader) :
    (ofHeader number segment h).Mirrors h where
  name_eq := rfl
  address_eq := rfl
  size_eq := rfl
  fileOffset_eq := rfl
  align_eq := rfl
  relocationOffset_eq := rfl
  relocationCount_eq := rfl
  type_eq _ := SectionType.ofFlags?_eq_some_iff
  attributes_eq := testBit_attributesOfFlags h.flags
  reserved1_eq := rfl
  reserved2_eq := rfl

/-! ## The contents -/

/-- The contents of a segment are the bytes of the file that the command names.  They must all be
there, unless they are not read. -/
theorem Segment.readContents_eq_ok_iff {c : SegmentCommand} {contents : List UInt8} :
    readContents options image c = .ok contents ↔
      (options.segmentData = true ∧ c.ContentsInside image ∧ contents = c.contentsIn image) ∨
        (options.segmentData = false ∧ contents = []) := by
  cases hdata : options.segmentData with
  | false => simp [readContents_of_not_reads hdata, eq_comm]
  | true =>
    by_cases hinside : c.ContentsInside image
    · simp [readContents_of_inside hdata hinside, hinside, eq_comm]
    · simp [readContents_of_outside hdata hinside, hinside]

/-! ## The segment of a command -/

/-- A segment is the one that a command declares, with the contents that the file has for it. -/
structure Segment.Mirrors (options : Options) (image : ByteArray) (s : Segment)
    (c : SegmentCommand) : Prop where
  address_eq : s.address = c.address
  size_eq : s.size = c.size
  fileOffset_eq : s.fileOffset = c.fileOffset
  knownAs : c.KnownAs s.name
  /-- The contents are in the file, if they are read. -/
  contents_eq : options.segmentData = true →
    c.fileOffset.toNat + c.fileSize.toNat ≤ image.size ∧
      s.contents = window image c.fileOffset.toNat c.fileSize.toNat
  contents_eq_nil : options.segmentData = false → s.contents = []
  /-- There is a section for each record, in the order of the records. -/
  sections_mirror : List.Forall₂ (fun h t => Section.Mirrors t h) c.sections s.sections
  /-- A section is in the segment that holds it, whatever its record says. -/
  segment_eq : ∀ t ∈ s.sections, t.segment = s.name

theorem Segment.mirrors_ofCommand {c : SegmentCommand} {contents : List UInt8}
    (h : readContents options image c = .ok contents) (number : Nat) :
    (ofCommand number c contents).Mirrors options image c where
  address_eq := rfl
  size_eq := rfl
  fileOffset_eq := rfl
  knownAs := c.knownAs_displayName
  contents_eq hdata := by
    rcases readContents_eq_ok_iff.1 h with ⟨-, hinside, hcontents⟩ | ⟨hbare, -⟩
    · exact ⟨hinside, hcontents⟩
    · rw [hdata] at hbare
      cases hbare
  contents_eq_nil hbare := by
    rcases readContents_eq_ok_iff.1 h with ⟨hdata, -⟩ | ⟨-, hcontents⟩
    · rw [hbare] at hdata
      cases hdata
    · exact hcontents
  sections_mirror := by
    refine (Section.forall₂_ofHeaders _ number c.sections).imp ?_
    rintro header _ ⟨place, rfl⟩
    exact Section.mirrors_ofHeader place _ header
  segment_eq t ht := Section.segment_of_mem_ofHeaders ht

/-! ## The segments of an image -/

namespace Image

variable {img : Image}

/-- The commands that declare a segment are those of that kind, and the segment is the one that is
stored with the command. -/
theorem segment?_of_parse (h : parse image options = .ok img) {c : Command}
    (hc : c ∈ img.commands) :
    c.segment? =
      if c.id = .segment then some (Command.segmentAt image c.header.offset) else none := by
  unfold Command.segment?
  rcases body_cases_of_parse h hc CommandId.ownsShape_segment with ⟨hid, hbody⟩ | ⟨hid, hshape⟩
  · rw [if_pos hid, hbody]
    rfl
  · rw [if_neg hid]
    split
    next s hcase =>
      rw [hcase] at hshape
      exact absurd rfl hshape
    · rfl

/-- The segment commands of an image, with what is stored in them, in the order of the commands. -/
theorem filterMap_segment?_of_parse (h : parse image options = .ok img) :
    img.commands.filterMap Command.segment? =
      (img.commands.filter fun c => c.id = .segment).map
        fun c => Command.segmentAt image c.header.offset := by
  rw [List.filterMap_congr fun c hc => segment?_of_parse h hc, ← List.filterMap_eq_map,
    List.filterMap_filter]
  simp

/-- The segments of an image are those of its segment commands, one for each. -/
structure SegmentsMirrored (options : Options) (image : ByteArray) (img : Image) : Prop where
  /-- The commands stand in the order in which they are stored. -/
  in_file_order : img.commands.Pairwise fun a b =>
    a.header.offset + a.header.length.toNat ≤ b.header.offset
  /-- There is a segment for each segment command, in the order of the commands. -/
  mirrored : List.Forall₂
    (fun c s => ∃ command, c.segment? = some command ∧
      command = Command.segmentAt image c.header.offset ∧ Segment.Mirrors options image s command)
    (img.commands.filter fun c => c.id = .segment) img.segments
  /-- No other command declares a segment. -/
  only_segment_commands : ∀ c ∈ img.commands, c.id ≠ .segment → c.segment? = none

/-- **The segments of an image mirror its segment commands**, with their contents and sections. -/
theorem segmentsMirrored_of_parse (h : parse image options = .ok img) :
    SegmentsMirrored options image img where
  in_file_order := (commands_of_parse h).2
  mirrored := by
    have hstored : ∀ c ∈ img.commands.filter fun c => c.id = .segment,
        c.segment? = some (Command.segmentAt image c.header.offset) := by
      intro c hc
      rw [List.mem_filter, decide_eq_true_eq] at hc
      rw [segment?_of_parse h hc.1, if_pos hc.2]
    have hbuilt := segments_of_parse h
    rw [filterMap_segment?_of_parse h, List.forall₂_map_left_iff] at hbuilt
    refine ((List.forall₂_and_left _ _).2 ⟨hstored, hbuilt⟩).imp ?_
    rintro c _ ⟨hsegment, number, contents, hread, rfl⟩
    exact ⟨_, hsegment, rfl, Segment.mirrors_ofCommand hread number⟩
  only_segment_commands c hc hid := by
    rw [segment?_of_parse h hc, if_neg hid]

/-- The bytes of a segment command with a name of one letter, filled with the first bytes of the
file.  Each of its sections records a segment with a name of one letter, and flags for stubs with
three more bits, two of which have a name.  The letter zero is none. -/
def labelledSegmentBytes (letter fileSize : UInt8) (labels : List UInt8) : List UInt8 :=
  [1, 0, 0, 0, 56 + 68 * labels.length.toUInt8, 0, 0, 0, letter] ++ List.replicate 27 0 ++
    [fileSize, 0, 0, 0] ++ List.replicate 8 0 ++
    [labels.length.toUInt8, 0, 0, 0, 0, 0, 0, 0] ++
    labels.flatMap fun label =>
      List.replicate 16 0 ++ label :: List.replicate 39 0 ++ [8, 5, 0, 0x81] ++ List.replicate 8 0

/-- An image with three segments: `A` with a section that records `X`, one without a name whose
section records `T`, and one without a name whose second section alone records one. -/
def unnamedSegments : ByteArray := ⟨(
  [0xCE, 0xFA, 0xED, 0xFE, 12, 0, 0, 0, 9, 0, 0, 0, 2, 0, 0, 0, 3, 0, 0, 0, 0xB8, 1, 0, 0,
    0, 0, 0, 0] ++ labelledSegmentBytes 0x41 4 [0x58] ++ labelledSegmentBytes 0 0 [0x54] ++
    labelledSegmentBytes 0 1 [0, 0x55]).toArray⟩

theorem unnamedSegments_segmentsMirrored :
    ∃ img, parse unnamedSegments = .ok img ∧ SegmentsMirrored {} unnamedSegments img ∧
      img.segments.map Segment.name = ["A", "T", "*NONAME*"] ∧
      img.segments.map Segment.contents = [[0xCE, 0xFA, 0xED, 0xFE], [], [0xCE]] ∧
      img.sections.map Section.segment = ["A", "T", "*NONAME*", "*NONAME*"] ∧
      img.sections.map Section.type = List.replicate 4 (some .symbolStubs) ∧
      img.sections.map Section.attributes = List.replicate 4 ⟨0x80000500⟩ := by
  obtain ⟨img, himg, hlisted⟩ : ∃ img, parse unnamedSegments = .ok img ∧
      img.segments.map Segment.name = ["A", "T", "*NONAME*"] ∧
      img.segments.map Segment.contents = [[0xCE, 0xFA, 0xED, 0xFE], [], [0xCE]] ∧
      img.sections.map Section.segment = ["A", "T", "*NONAME*", "*NONAME*"] ∧
      img.sections.map Section.type = List.replicate 4 (some .symbolStubs) ∧
      img.sections.map Section.attributes = List.replicate 4 ⟨0x80000500⟩ := by
    apply exists_of_parse_check
    decide +kernel
  exact ⟨img, himg, segmentsMirrored_of_parse himg, hlisted⟩

end Image

end MachImage
