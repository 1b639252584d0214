import MachImage.Proofs.Checked.Walk
import MachImage.Proofs.Image.Numbering

/-!
# Building an image without a stop

The sections of an image are numbered by a counter of 32 bits, which stops the
program when it runs over.  Every section is declared by a record of 68 bytes,
and the records lie apart from each other behind the header, so that an image
with too many sections for the counter has at least `68 * 2 ^ 32` bytes.  Shorter
images are built without a stop (`build_eq_some`).

After the segments nothing is computed that could stop: the libraries, the
symbols and the indirect symbol table are made by comparing numbers and by looking
up places that may be missing.
-/

namespace MachImage.Checked

open CheckedReader (value plain)

/-! ## The header -/

/-- Checks the magic number at the cursor; the cursor stays. -/
def validate : CheckedReader Unit := fun image pos =>
  match CheckedReader.peek 4 image pos with
  | none => none
  | some ⟨.error _, cursor, notes⟩ =>
    some ⟨.error (.tooShortForMagic (image.size - pos)), cursor, notes⟩
  | some ⟨.ok part, cursor, notes⟩ =>
    (LittleEndian.u32? part.data.toList).map fun magic => ⟨Header.checkMagic magic, cursor, notes⟩

/-- The header at the cursor. -/
def header : CheckedReader Header := do
  validate
  let (magic, cpu, subtype, file, commandCount, commandBytes, flagBits, _) ←
    CheckedReader.record .header
  let cpuType ← plain (Reader.demand (Coded.ofCode? cpu) (.unknownCpuType cpu))
  let cpuSubtype ← plain (Reader.demand (Coded.ofCode? subtype) (.unknownCpuSubtype subtype))
  let fileType ← plain (Reader.demand (Coded.ofCode? file) (.unknownFileType file))
  let header : Header :=
    { magic, cpuType, cpuSubtype, fileType, commandCount, commandBytes, flagBits }
  plain (Reader.note (.headerRead header))
  return header

section Header

variable {image : ByteArray} {pos : Nat} (hsize : image.size < 68 * UInt32.size)
  (hpos : pos ≤ image.size)

include hsize hpos

theorem follows_validate : validate.Follows Header.validate image pos := by
  by_cases hshort : image.size < pos + 4
  · have hvalidate : Header.validate image pos =
        ⟨.error (.tooShortForMagic (image.size - pos)), pos, []⟩ := if_pos hshort
    constructor
    · rw [validate, CheckedReader.peek_of_lt hshort, hvalidate]
    · rw [hvalidate]
      exact hpos
  · have hle : pos + 4 ≤ image.size := Nat.le_of_not_lt hshort
    have hvalidate : Header.validate image pos =
        ⟨Header.checkMagic (LittleEndian.u32 (window image pos 4)), pos, []⟩ := if_neg hshort
    have hmagic : LittleEndian.u32? (window image pos 4) =
        some (LittleEndian.u32 (window image pos 4)) := by
      refine if_pos ?_
      rw [length_window]
      omega
    constructor
    · rw [validate, CheckedReader.peek_of_le hsize hle, hvalidate]
      exact congrArg (Option.map _) hmagic
    · rw [hvalidate]
      exact hpos

theorem follows_header : header.Follows Header.read image pos := by
  refine (follows_validate hsize hpos).bind fun _ cursor _ hle => ?_
  refine (CheckedReader.follows_record hsize hle _).bind fun v cursor _ hle => ?_
  refine CheckedReader.follows_demand_bind hle fun cpuType _ => ?_
  refine CheckedReader.follows_demand_bind hle fun cpuSubtype _ => ?_
  refine CheckedReader.follows_demand_bind hle fun fileType _ => ?_
  exact CheckedReader.follows_note_bind hle (CheckedReader.follows_pure hle _)

end Header

/-! ## Sections and segments -/

/-- Consecutively numbered sections of one segment, and the number of the section that comes
next. -/
def numbered (segment : String) : (number : Nat) → List SectionHeader → Option (List Section × Nat)
  | number, [] => some ([], number)
  | number, h :: hs => do
    let next ← sum UInt32.size number 1
    let (rest, last) ← numbered segment next hs
    return (Section.ofHeader number segment h :: rest, last)

/-- The bytes of the file that fill a segment. -/
def contentsReader (c : SegmentCommand) : CheckedReader (List UInt8) := do
  plain (Reader.seek c.fileOffset.toNat)
  CheckedReader.bytes c.fileSize.toNat

/-- The bytes of the file that fill a segment; none if they are not to be read. -/
def contents (options : Options) (image : ByteArray) (c : SegmentCommand) :
    Option (Except Error (List UInt8)) :=
  if options.segmentData then (contentsReader c image 0).map Outcome.result else some (.ok [])

/-- The segments of commands, the first of them at `position` among the segments, with their
sections numbered from `number` on. -/
def segmentTable (options : Options) (image : ByteArray) :
    (position number : Nat) → List SegmentCommand → Option SegmentTable
  | _, _, [] => some ⟨[], [], [], none⟩
  | position, number, c :: cs => do
    match ← contents options image c with
    | .error e => return ⟨[], [], [], some e⟩
    | .ok contents =>
      let name := Segment.displayName c
      let (sections, next) ← numbered name number c.sections
      let rest ← segmentTable options image (position + 1) next cs
      let segment : Segment :=
        { name, address := c.address, size := c.size, fileOffset := c.fileOffset, contents,
          sections }
      return ⟨segment :: rest.segments, segment.placesAt position ++ rest.places,
        segment.events ++ rest.events, rest.failure⟩

/-- The counter does not run over while there are fewer numbers than 32 bits can hold. -/
theorem numbered_eq_some (segment : String) {number : Nat} {hs : List SectionHeader}
    (h : number + hs.length < UInt32.size) :
    numbered segment number hs =
      some (Section.ofHeaders segment number hs, number + hs.length) := by
  induction hs generalizing number with
  | nil => rfl
  | cons header hs ih =>
    rw [List.length_cons] at h ⊢
    rw [numbered, sum_eq_some (by omega), Section.ofHeaders]
    simp only [Option.bind_eq_bind, Option.bind_some, ih (show number + 1 + hs.length < UInt32.size by omega)]
    rw [Nat.add_assoc, Nat.add_comm 1]
    rfl

theorem follows_contentsReader {image : ByteArray} {pos : Nat} (c : SegmentCommand)
    (hsize : image.size < 68 * UInt32.size) (hpos : pos ≤ image.size) :
    (contentsReader c).Follows (Segment.contentsReader c) image pos :=
  CheckedReader.follows_seek_bind hpos fun hoffset => CheckedReader.follows_bytes hsize hoffset _

theorem contents_eq_some {options : Options} {image : ByteArray} {c : SegmentCommand}
    (hsize : image.size < 68 * UInt32.size) :
    contents options image c = some (Segment.readContents options image c) := by
  unfold contents Segment.readContents
  by_cases hdata : options.segmentData = true
  · rw [if_pos hdata, if_pos hdata, (follows_contentsReader c hsize (Nat.zero_le _)).eq_some]
    rfl
  · rw [if_neg hdata, if_neg hdata]

theorem segmentTable_eq_some {options : Options} {image : ByteArray}
    (hsize : image.size < 68 * UInt32.size) {position number : Nat} {cs : List SegmentCommand}
    (h : number + (cs.map fun c => c.sections.length).sum < UInt32.size) :
    segmentTable options image position number cs =
      some (SegmentTable.build options image position number cs) := by
  induction cs generalizing position number with
  | nil => rfl
  | cons c cs ih =>
    rw [List.map_cons, List.sum_cons] at h
    rw [segmentTable, contents_eq_some hsize, SegmentTable.build]
    simp only [Option.bind_eq_bind, Option.bind_some]
    cases Segment.readContents options image c with
    | error e => rfl
    | ok contents =>
      have hnumbered := numbered_eq_some (Segment.displayName c)
        (show number + c.sections.length < UInt32.size by omega)
      have hlength : (Segment.ofCommand number c contents).sections.length = c.sections.length :=
        Section.length_ofHeaders _ _ _
      simp only [hnumbered, Option.bind_some, ih (show number + c.sections.length + _ < _ by omega),
        hlength]
      rfl

/-- The sections of the segments are those that the commands declare. -/
theorem sum_length_sections (commands : List Command) :
    ((commands.filterMap Command.segment?).map fun s => s.sections.length).sum =
      (commands.flatMap Command.declarations).length := by
  induction commands with
  | nil => rfl
  | cons c cs ih =>
    rw [List.flatMap_cons, List.length_append, ← ih, Command.declarations]
    cases hs : c.segment? with
    | none => simp [List.filterMap_cons_none hs]
    | some s => simp [List.filterMap_cons_some hs]

/-- **The counter of the sections does not run over** in an image that is too short for so many
records. -/
theorem counter_lt {options : Options} {image : ByteArray} (hsize : image.size < 68 * UInt32.size)
    {count : Nat} (h : (Walk.run options image count 28).failure = none) :
    1 + (((Walk.run options image count 28).commands.filterMap Command.segment?).map
      fun s => s.sections.length).sum < UInt32.size := by
  obtain ⟨hentry, hpairwise⟩ := Walk.commands_apart h
  rw [sum_length_sections]
  by_cases hne : (Walk.run options image count 28).commands.flatMap Command.declarations = []
  · rw [hne]
    decide
  · have hbytes := Command.declarations_bytes hentry hpairwise hne
    omega

/-! ## Stages -/

/-- One stage, then another that depends on the value of the first; a stop of either stops both. -/
def andThen {α β : Type} (r : Option (Report α)) (f : α → Option (Report β)) : Option (Report β) :=
  match r with
  | none => none
  | some ⟨.error e, events, notes⟩ => some ⟨.error e, events, notes⟩
  | some ⟨.ok a, events, notes⟩ =>
    (f a).map fun next => ⟨next.result, events ++ next.events, notes ++ next.notes⟩

/-- Stages do not stop if each does not stop after those before it. -/
theorem andThen_eq_some {α β : Type} {r : Option (Report α)} {r' : Report α}
    {f : α → Option (Report β)} {f' : α → Report β} (hr : r = some r')
    (hf : ∀ a, r'.result = .ok a → f a = some (f' a)) : andThen r f = some (r' >>= f') := by
  rw [hr]
  rcases r' with ⟨e | a, events, notes⟩
  · rfl
  · rw [andThen, hf a rfl]
    rfl

/-- The header at the start of the file, and where the commands start. -/
def readHeader (image : ByteArray) : Option (Report (Header × Nat)) :=
  (header image 0).map fun outcome =>
    ⟨outcome.result.map fun header => (header, outcome.cursor), [], outcome.notes⟩

/-- The load commands of the file. -/
def readCommands (options : Options) (image : ByteArray) (count start : Nat) :
    Option (Reading Walk) := do
  let walk ← walk options image count start
  let notes ← summary walk start
  return { result := Report.resultOf walk.failure walk, events := walk.events,
           notes := walk.notes ++ notes, cursor := walk.cursor }

/-- The segments of the commands. -/
def buildSegments (options : Options) (image : ByteArray) (commands : List Command) :
    Option (Report SegmentTable) := do
  let table ← segmentTable options image 0 1 (commands.filterMap Command.segment?)
  return ⟨Report.resultOf table.failure table, table.events,
    match table.failure with
    | some _ => []
    | none => [.segmentsBuilt table.segments.length table.places.length]⟩

/-- The image in a file, with the events and notes of the building. -/
def build (options : Options) (image : ByteArray) : Option (Report Image) :=
  andThen (readHeader image) fun (header, start) =>
  andThen ((readCommands options image header.commandCount.toNat start).map Reading.toReport)
    fun walk =>
  andThen (buildSegments options image walk.commands) fun table =>
  some do
    let libraries ← Image.listLibraries header walk.commands
    let symbols ←
      Image.buildSymbols (Image.targetsOf options header table.places libraries) walk.commands
    return Image.ofStages header walk table libraries symbols

section Stages

variable {options : Options} {image : ByteArray} (hsize : image.size < 68 * UInt32.size)

include hsize

theorem readHeader_eq_some : readHeader image = some (Image.readHeader image) := by
  rw [readHeader, (follows_header hsize (Nat.zero_le _)).eq_some]
  rfl

omit hsize in
/-- The header lies inside the image, so that the commands start there. -/
theorem start_le_of_readHeader {header : Header} {start : Nat}
    (h : (Image.readHeader image).result = .ok (header, start)) : start ≤ image.size :=
  Header.uses_read.cursor_le (Nat.zero_le _) (Image.result_readHeader_eq_ok_iff.1 h)

theorem readCommands_eq_some {start : Nat} (hstart : start ≤ image.size) (count : UInt32) :
    readCommands options image count.toNat start =
      some (Image.readCommands options image count.toNat start) := by
  have hcount : count.toNat < UInt64.size := Nat.lt_trans count.toNat_lt (by decide)
  rw [readCommands, walk_eq_some hsize hstart]
  simp only [Option.bind_eq_bind, Option.bind_some, summary_eq_some hcount]
  rfl

theorem buildSegments_eq_some {count : Nat}
    (h : (Walk.run options image count 28).failure = none) :
    buildSegments options image (Walk.run options image count 28).commands =
      some (Image.buildSegments options image (Walk.run options image count 28).commands) := by
  rw [buildSegments, segmentTable_eq_some hsize (counter_lt hsize h)]
  rfl

/-- **An image is built without a stop.** -/
theorem build_eq_some : build options image = some (Image.build options image) := by
  refine andThen_eq_some (readHeader_eq_some hsize) fun p hp => ?_
  obtain ⟨header, start⟩ := p
  have hstart := start_le_of_readHeader hp
  obtain rfl := Image.start_eq_of_readHeader hp
  have hcommands : (readCommands options image header.commandCount.toNat 28).map
      Reading.toReport = _ :=
    congrArg (Option.map Reading.toReport) (readCommands_eq_some hsize hstart _)
  refine andThen_eq_some hcommands fun walk hwalk => ?_
  obtain ⟨hfailure, rfl⟩ := Image.result_readCommands_eq_ok_iff.1 hwalk
  exact andThen_eq_some (buildSegments_eq_some hsize hfailure) fun table _ => rfl

end Stages

end MachImage.Checked
