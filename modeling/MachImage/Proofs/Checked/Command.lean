import MachImage.Command.Read
import MachImage.Proofs.Checked.BindStream

/-!
# Reading load commands without a stop

The bodies of load commands as programs that can stop.  Where such a program adds
an offset of 64 bits to a length of 32, multiplies the count of a table by the
size of its entries or takes the part of a name that is in use, the operation is
one that can stop.

Each body follows its reader in `Command.readBody` (`follows_readBody`), since a
command starts inside the image: an offset inside the image and what 32 bits can
hold do not add up to what 64 bits cannot.
-/

namespace MachImage.Checked

open CheckedReader (value plain)

/-! ## Parts of commands -/

/-- The record at the start of a command, unless the command is too short for it. -/
def readRecord (h : CommandHeader) (r : Record) : CheckedReader r.Values :=
  if h.length.toNat < r.size then plain (Reader.fail (.commandTooSmall h.offset h.length))
  else CheckedReader.record r

/-- The name that starts at an offset within a command. -/
def readName (h : CommandHeader) (nameOffset : UInt32) : CheckedReader String :=
  if h.length < nameOffset then
    plain (Reader.fail (.malformed h.offset (.nameBeyondCommand nameOffset h.length)))
  else do
    let start ← value (sum UInt64.size h.offset nameOffset.toNat)
    plain (Reader.seek start)
    let length ← value (difference h.length.toNat nameOffset.toNat)
    CheckedReader.fixedName length

/-- Where a table of `n` entries of `k` bytes ends that starts at `base`. -/
def tableEnd (base n k : Nat) : Option Nat := do
  let length ← product UInt64.size n k
  sum UInt64.size base length

/-- The section at the cursor. -/
def readSection : CheckedReader SectionHeader := do
  let (name, segmentName, address, size, fileOffset, align, relocationOffset, relocationCount,
    flags, reserved1, reserved2, _) ← CheckedReader.record .sectionHeader
  let name ← value (Checked.name name.toList)
  let segmentName ← value (Checked.name segmentName.toList)
  return {
    name, segmentName, address, size, fileOffset, align, relocationOffset, relocationCount, flags,
    reserved1, reserved2 }

/-- The tool at the cursor. -/
def readTool : CheckedReader BuildTool := do
  let (tool, version, _) ← CheckedReader.record .buildTool
  return { tool, version }

/-- The name at an offset of a table of names. -/
def symbolName (names : ByteArray) (offset : Nat) : Option String := do
  let tail ← slice names offset names.size
  name tail.data.toList

/-- The name an entry of a symbol table refers to. -/
def readSymbolName (names : ByteArray) (start offset : Nat) : CheckedReader String :=
  if offset = 0 then pure ""
  else if offset ≤ names.size then value (symbolName names offset)
  else do
    plain (Reader.note (.nameBeyondTable start offset names.size))
    pure ""

/-- The entry of a symbol table at the cursor. -/
def readEntry (names : ByteArray) : CheckedReader SymbolEntry := do
  let start ← plain Reader.position
  let (nameOffset, type, sectionNumber, description, value, _) ← CheckedReader.record .symbol
  let name ← readSymbolName names start nameOffset.toNat
  return { name, type := ⟨type⟩, sectionNumber, description := ⟨description⟩, value }

/-- The result of reading a bind stream, with the offset of a fault counted from `base` bytes
earlier. -/
def shiftResult {α : Type} (base : Nat) : Except Error α → Option (Except Error α)
  | .ok a => some (.ok a)
  | .error e => (shift base e).map .error

/-- The bindings of a stream, with offsets of faults counted from the start of the file. -/
def readBindings (options : Options) (offset size : UInt32) :
    CheckedReader (Option (List BindStream.Binding)) :=
  if size = 0 || !options.bindInfo then pure none
  else
    CheckedReader.within do
      plain (Reader.seek offset.toNat)
      let stream ← CheckedReader.slice size.toNat
      let (result, notes) ← value (interpret stream)
      let result ← value (shiftResult offset.toNat result)
      let bindings ← plain (Reader.report result notes)
      return some bindings

/-- The indirect symbol table. -/
def readIndirect (offset count : UInt32) : CheckedReader (List UInt32) :=
  if count = 0 then pure []
  else
    CheckedReader.within do
      plain (Reader.seek offset.toNat)
      CheckedReader.words count.toNat

/-! ## Bodies -/

/-- A segment with its sections. -/
def readSegment (h : CommandHeader) : CheckedReader CommandBody := do
  let (_, _, name, address, size, fileOffset, fileSize, greatest, initial, sectionCount, flags, _)
    ← readRecord h .segment
  let stop ← value
    (tableEnd Record.segment.size sectionCount.toNat Record.sectionHeader.size)
  if h.length.toNat < stop then
    plain (Reader.fail (.malformed h.offset (.sectionsBeyondCommand sectionCount h.length)))
  else
    let sections ← CheckedReader.times sectionCount.toNat readSection
    let name ← value (Checked.name name.toList)
    return .segment {
      name, address, size, fileOffset, fileSize,
      greatestProtection := Flags.ofBits protectionFlags greatest,
      initialProtection := Flags.ofBits protectionFlags initial, sectionCount, flags, sections }

/-- A symbol table. -/
def readSymtab (h : CommandHeader) : CheckedReader CommandBody := do
  let (_, _, symbolOffset, symbolCount, nameOffset, nameSize, _) ← readRecord h .symtab
  let entries ← CheckedReader.within do
    plain (Reader.seek nameOffset.toNat)
    let names ← CheckedReader.slice nameSize.toNat
    plain (Reader.seek symbolOffset.toNat)
    CheckedReader.times symbolCount.toNat (readEntry names)
  plain (Reader.note (.symbolsRead entries.length nameSize))
  return .symtab { symbolOffset, symbolCount, nameOffset, nameSize, entries }

/-- The parts of a symbol table, with the indirect symbol table. -/
def readDysymtab (h : CommandHeader) : CheckedReader CommandBody := do
  let (_, _, localStart, localCount, definedStart, definedCount, undefinedStart, undefinedCount,
    contentsOffset, contentsCount, moduleOffset, moduleCount, referenceOffset, referenceCount,
    indirectOffset, indirectCount, externalRelocationOffset, externalRelocationCount,
    localRelocationOffset, localRelocationCount, _) ← readRecord h .dysymtab
  let indirectSymbols ← readIndirect indirectOffset indirectCount
  return .dysymtab {
    localStart, localCount, definedStart, definedCount, undefinedStart, undefinedCount,
    contentsOffset, contentsCount, moduleOffset, moduleCount, referenceOffset, referenceCount,
    indirectOffset, indirectCount, externalRelocationOffset, externalRelocationCount,
    localRelocationOffset, localRelocationCount, indirectSymbols }

/-- A library. -/
def readDylib (h : CommandHeader) : CheckedReader CommandBody := do
  let (_, _, nameOffset, timestamp, currentVersion, compatibilityVersion, _)
    ← readRecord h .dylib
  let name ← readName h nameOffset
  return .dylib { name, timestamp, currentVersion, compatibilityVersion }

/-- A command that holds nothing but a name. -/
def readPath (h : CommandHeader) : CheckedReader CommandBody := do
  let (_, _, nameOffset, _) ← readRecord h .path
  return .path (← readName h nameOffset)

/-- The loader's tables. -/
def readDyldInfo (options : Options) (h : CommandHeader) : CheckedReader CommandBody := do
  let (_, _, rebaseOffset, rebaseSize, bindOffset, bindSize, weakBindOffset, weakBindSize,
    lazyBindOffset, lazyBindSize, exportOffset, exportSize, _) ← readRecord h .dyldInfo
  let bindings ← readBindings options bindOffset bindSize
  let weakBindings ← readBindings options weakBindOffset weakBindSize
  let lazyBindings ← readBindings options lazyBindOffset lazyBindSize
  plain (Reader.note (.bindTablesRead (Command.bindingCount bindings)
    (Command.bindingCount weakBindings) (Command.bindingCount lazyBindings)))
  return .dyldInfo {
    rebaseOffset, rebaseSize, bindOffset, bindSize, weakBindOffset, weakBindSize, lazyBindOffset,
    lazyBindSize, exportOffset, exportSize, bindings, weakBindings, lazyBindings }

/-- The state in which the program starts. -/
def readThread (h : CommandHeader) : CheckedReader CommandBody := do
  let (_, _, flavor, wordCount, _) ← readRecord h .thread
  if h.length.toNat < Record.thread.size + Record.armThreadState.size then
    plain (Reader.fail (.commandTooSmall h.offset h.length))
  else
    let (r, sp, lr, pc, cpsr, _) ← CheckedReader.record .armThreadState
    return .thread { flavor, wordCount, registers := { r, sp, lr, pc, cpsr } }

/-- The platform an image is built for, with the tools. -/
def readBuildVersion (h : CommandHeader) : CheckedReader CommandBody := do
  let (_, _, platform, leastVersion, kit, toolCount, _) ← readRecord h .buildVersion
  let stop ← value
    (tableEnd Record.buildVersion.size toolCount.toNat Record.buildTool.size)
  if h.length.toNat < stop then
    plain (Reader.fail (.malformed h.offset (.toolsBeyondCommand toolCount)))
  else
    let tools ← CheckedReader.times toolCount.toNat readTool
    return .buildVersion { platform, leastVersion, kit, tools }

/-- A body that is made of a record alone. -/
def readPlain (h : CommandHeader) (r : Record) (make : r.Values → CommandBody) :
    CheckedReader CommandBody := do
  return make (← readRecord h r)

/-- The body of a command of a given shape. -/
def readBody (options : Options) (h : CommandHeader) : CommandShape → CheckedReader CommandBody
  | .segment => readSegment h
  | .symtab => readSymtab h
  | .dysymtab => readDysymtab h
  | .dylib => readDylib h
  | .path => readPath h
  | .uuid => readPlain h .uuid fun (_, _, bytes, _) => .uuid bytes
  | .thread => readThread h
  | .encryption => readPlain h .encryptionInfo fun (_, _, fileOffset, size, scheme, _) =>
    .encryption { fileOffset, size, scheme }
  | .linkedit => readPlain h .linkeditData fun (_, _, fileOffset, size, _) =>
    .linkedit { fileOffset, size }
  | .versionMin => readPlain h .versionMin fun (_, _, version, kit, _) =>
    .versionMin { version, kit }
  | .dyldInfo => readDyldInfo options h
  | .main => readPlain h .entryPoint fun (_, _, entryOffset, stackSize, _) =>
    .main { entryOffset, stackSize }
  | .sourceVersion => readPlain h .sourceVersion fun (_, _, version, _) => .sourceVersion version
  | .buildVersion => readBuildVersion h

/-! ## Parts follow their readers -/

section Parts

variable {α β : Type} {image : ByteArray} {pos : Nat} (hsize : image.size < 68 * UInt32.size)
  (hpos : pos ≤ image.size)

include hsize hpos

theorem follows_readSection : readSection.Follows Command.readSection image pos := by
  refine (CheckedReader.follows_record hsize hpos _).bind fun v cursor _ hle => ?_
  refine CheckedReader.follows_value_bind (name_eq_some _) ?_
  exact CheckedReader.follows_value_bind (name_eq_some _) (CheckedReader.follows_pure hle _)

theorem follows_readTool : readTool.Follows Command.readTool image pos :=
  (CheckedReader.follows_record hsize hpos _).map _

omit hsize hpos in
/-- The tail of a table of names from an offset in it is cut at the first zero byte. -/
theorem symbolName_eq_some {names : ByteArray} {offset : Nat} (h : offset ≤ names.size) :
    symbolName names offset = some (SymbolEntry.nameAt names offset) := by
  have hstop : offset + (names.size - offset) = names.size := by omega
  rw [symbolName, slice_eq_some h (Nat.le_refl _), SymbolEntry.nameAt, bytesUntilZero_eq, window,
    hstop]
  exact name_eq_some _

omit hsize in
theorem follows_readSymbolName (names : ByteArray) (start offset : Nat) :
    (readSymbolName names start offset).Follows (SymbolEntry.readName names start offset)
      image pos := by
  unfold readSymbolName SymbolEntry.readName
  by_cases hzero : offset = 0
  · rw [if_pos hzero, if_pos hzero]
    exact CheckedReader.follows_pure hpos _
  · rw [if_neg hzero, if_neg hzero]
    by_cases hinside : offset ≤ names.size
    · rw [if_pos hinside, if_pos hinside, symbolName_eq_some hinside]
      exact CheckedReader.follows_pure hpos _
    · rw [if_neg hinside, if_neg hinside]
      exact CheckedReader.follows_note_bind hpos (CheckedReader.follows_pure hpos _)

theorem follows_readEntry (names : ByteArray) :
    (readEntry names).Follows (SymbolEntry.read names) image pos := by
  refine CheckedReader.follows_position_bind hpos ?_
  refine (CheckedReader.follows_record hsize hpos _).bind fun v cursor _ hle => ?_
  exact (follows_readSymbolName hle names pos _).map _

theorem follows_readIndirect (offset count : UInt32) :
    (readIndirect offset count).Follows (Command.readIndirect offset count) image pos := by
  unfold readIndirect Command.readIndirect
  by_cases hcount : count = 0
  · rw [if_pos hcount, if_pos hcount]
    exact CheckedReader.follows_pure hpos _
  · rw [if_neg hcount, if_neg hcount]
    refine (CheckedReader.follows_seek_bind hpos fun hoffset => ?_).within hpos
    exact CheckedReader.follows_words hsize hoffset _

omit hsize hpos in
theorem shiftResult_parse {bs : List UInt8} {base : Nat} (hfits : base + bs.length < UInt64.size) :
    shiftResult base (BindStream.parse bs) =
      some ((BindStream.parse bs).mapError (Error.shift base)) := by
  cases hparse : BindStream.parse bs with
  | ok bindings => rfl
  | error e =>
    rw [shiftResult, shift_eq_some (BindStream.liesBetween_of_parseFrom hparse) hfits]
    rfl

/-- A bind stream is shorter than the image that it lies in, and so are the offsets of its
faults. -/
theorem follows_readBindings (options : Options) (offset size : UInt32) :
    (readBindings options offset size).Follows (Command.readBindings options offset size)
      image pos := by
  unfold readBindings Command.readBindings
  by_cases hread : (size = 0 || !options.bindInfo) = true
  · rw [if_pos hread, if_pos hread]
    exact CheckedReader.follows_pure hpos _
  · rw [if_neg hread, if_neg hread]
    refine (CheckedReader.follows_seek_bind hpos fun hoffset => ?_).within hpos
    rw [Reader.bytes_bind]
    refine (CheckedReader.follows_slice hsize hoffset _).bind fun stream cursor hyields hle => ?_
    obtain ⟨hinside, hstream, rfl⟩ := Reader.yields_slice.1 hyields
    have hlimit : 68 * UInt32.size < UInt64.size := by decide
    have hlength : stream.size = size.toNat := by
      rw [hstream, ByteArray.size_extract]
      omega
    have hbytes : stream.data.toList.length = size.toNat := Array.length_toList.trans hlength
    refine CheckedReader.follows_value_bind (interpret_eq_some (by omega)) ?_
    refine CheckedReader.follows_value_bind (shiftResult_parse (by omega)) ?_
    exact (CheckedReader.follows_plain hle).map _

end Parts

/-! ## Bodies follow their readers -/

section Bodies

variable {α : Type} {options : Options} {h : CommandHeader} {image : ByteArray}
  (hsize : image.size < 68 * UInt32.size) (hoffset : h.offset ≤ image.size)

include hsize hoffset

theorem follows_readRecord (r : Record) :
    (readRecord h r).Follows (Command.readRecord h r) image h.offset :=
  CheckedReader.follows_unless hoffset fun _ => CheckedReader.follows_record hsize hoffset r

/-- An offset inside the image and an offset within the command have a sum. -/
theorem follows_readName (nameOffset : UInt32) {pos : Nat} (hpos : pos ≤ image.size) :
    (readName h nameOffset).Follows (Command.readName h nameOffset) image pos := by
  refine CheckedReader.follows_unless hpos fun hle => ?_
  rw [UInt32.not_lt] at hle
  have hstart : h.offset + nameOffset.toNat < UInt64.size := by
    have hname := nameOffset.toNat_lt
    have hlimit : 68 * UInt32.size + 2 ^ 32 < UInt64.size := by decide
    omega
  have hlength := difference_eq_some (UInt32.le_iff_toNat_le.1 hle)
  rw [← UInt32.toNat_sub_of_le _ _ hle] at hlength
  refine CheckedReader.follows_value_bind (sum_eq_some hstart) ?_
  refine CheckedReader.follows_seek_bind hpos fun hinside => ?_
  refine CheckedReader.follows_value_bind hlength ?_
  exact CheckedReader.follows_fixedName hsize hinside _

omit hsize hoffset in
/-- Where a table ends that is counted by 32 bits can be computed; its entries are read from inside
the image. -/
theorem follows_table {entry : CheckedReader α} {r : Reader α} {base k : Nat} (n : UInt32)
    {e : Error} {g : List α → CheckedReader CommandBody} {f : List α → Reader CommandBody}
    {pos : Nat} (hpos : pos ≤ image.size) (hfits : base + UInt32.size * k < UInt64.size)
    (hentry : ∀ p ≤ image.size, entry.Follows r image p)
    (hrest : ∀ as, ∀ p ≤ image.size, (g as).Follows (f as) image p) :
    (do
        let stop ← value (tableEnd base n.toNat k)
        if h.length.toNat < stop then plain (Reader.fail e)
        else
          let as ← CheckedReader.times n.toNat entry
          g as : CheckedReader CommandBody).Follows
      (if h.length.toNat < base + n.toNat * k then Reader.fail e
        else Reader.times n.toNat r >>= f) image pos := by
  have hcount : n.toNat * k ≤ UInt32.size * k :=
    Nat.mul_le_mul_right k (Nat.le_of_lt n.toNat_lt)
  have hstop : tableEnd base n.toNat k = some (base + n.toNat * k) := by
    rw [tableEnd, product_eq_some (by omega)]
    exact sum_eq_some (by omega)
  refine CheckedReader.follows_value_bind hstop ?_
  refine CheckedReader.follows_unless hpos fun _ => ?_
  exact (CheckedReader.follows_times hpos hentry).bind fun as p _ hle => hrest as p hle

theorem follows_readSegment : (readSegment h).Follows (Command.readSegment h) image h.offset := by
  refine (follows_readRecord hsize hoffset _).bind fun v cursor _ hle => ?_
  refine follows_table _ hle (by decide) (fun p hp => follows_readSection hsize hp)
    fun sections p hp => ?_
  exact CheckedReader.follows_value_bind (name_eq_some _) (CheckedReader.follows_pure hp _)

theorem follows_readBuildVersion :
    (readBuildVersion h).Follows (Command.readBuildVersion h) image h.offset := by
  refine (follows_readRecord hsize hoffset _).bind fun v cursor _ hle => ?_
  exact follows_table _ hle (by decide) (fun p hp => follows_readTool hsize hp)
    fun tools p hp => CheckedReader.follows_pure hp _

theorem follows_readPath : (readPath h).Follows (Command.readPath h) image h.offset := by
  refine (follows_readRecord hsize hoffset _).bind fun v cursor _ hle => ?_
  exact (follows_readName hsize hoffset _ hle).map _

theorem follows_readDylib : (readDylib h).Follows (Command.readDylib h) image h.offset := by
  refine (follows_readRecord hsize hoffset _).bind fun v cursor _ hle => ?_
  exact (follows_readName hsize hoffset _ hle).map _

theorem follows_readDysymtab :
    (readDysymtab h).Follows (Command.readDysymtab h) image h.offset := by
  refine (follows_readRecord hsize hoffset _).bind fun v cursor _ hle => ?_
  exact (follows_readIndirect hsize hle _ _).map _

theorem follows_readDyldInfo :
    (readDyldInfo options h).Follows (Command.readDyldInfo options h) image h.offset := by
  refine (follows_readRecord hsize hoffset _).bind fun v cursor _ hle => ?_
  refine (follows_readBindings hsize hle options _ _).bind fun _ cursor _ hle => ?_
  refine (follows_readBindings hsize hle options _ _).bind fun _ cursor _ hle => ?_
  refine (follows_readBindings hsize hle options _ _).bind fun _ cursor _ hle => ?_
  exact CheckedReader.follows_note_bind hle (CheckedReader.follows_pure hle _)

theorem follows_readSymtab : (readSymtab h).Follows (Command.readSymtab h) image h.offset := by
  refine (follows_readRecord hsize hoffset _).bind fun v cursor _ hle => ?_
  refine CheckedReader.Follows.bind (CheckedReader.Follows.within hle ?_) fun entries cursor _ hle =>
    CheckedReader.follows_note_bind hle (CheckedReader.follows_pure hle _)
  refine CheckedReader.follows_seek_bind hle fun hnames => ?_
  refine (CheckedReader.follows_slice hsize hnames _).bind fun names cursor _ hle => ?_
  refine CheckedReader.follows_seek_bind hle fun hsymbols => ?_
  exact CheckedReader.follows_times hsymbols fun p hp => follows_readEntry hsize hp names

theorem follows_readThread : (readThread h).Follows (Command.readThread h) image h.offset := by
  refine (follows_readRecord hsize hoffset _).bind fun v cursor _ hle => ?_
  refine CheckedReader.follows_unless hle fun _ => ?_
  exact (CheckedReader.follows_record hsize hle _).map _

theorem follows_readPlain (r : Record) (make : r.Values → CommandBody) :
    (readPlain h r make).Follows (Command.readRecord h r >>= fun v => Pure.pure (make v)) image
      h.offset :=
  (follows_readRecord hsize hoffset r).map make

/-- **The body of a command is read without a stop**, whatever its shape. -/
theorem follows_readBody (shape : CommandShape) :
    (readBody options h shape).Follows (Command.readBody options h shape) image h.offset := by
  cases shape with
  | segment => exact follows_readSegment hsize hoffset
  | symtab => exact follows_readSymtab hsize hoffset
  | dysymtab => exact follows_readDysymtab hsize hoffset
  | dylib => exact follows_readDylib hsize hoffset
  | path => exact follows_readPath hsize hoffset
  | thread => exact follows_readThread hsize hoffset
  | dyldInfo => exact follows_readDyldInfo hsize hoffset
  | buildVersion => exact follows_readBuildVersion hsize hoffset
  | uuid | encryption | linkedit | versionMin | main | sourceVersion =>
    exact follows_readPlain hsize hoffset _ _

end Bodies

end MachImage.Checked
