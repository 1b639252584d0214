import MachImage.BindStream.Run
import MachImage.Command.Shape
import MachImage.Options

/-!
# Reading load commands

Each shape of command has a reader for its body, which starts at the first
byte of the command.  A record is read only if the declared length of the
command covers it.  Tables elsewhere in the file are read `within` the
command: the cursor comes back.
-/

namespace MachImage

namespace Command

/-- The record at the start of a command, unless the command is too short for it. -/
def readRecord (h : CommandHeader) (r : Record) : Reader r.Values :=
  if h.length.toNat < r.size then Reader.fail (.commandTooSmall h.offset h.length)
  else Reader.record r

/-- The name that starts at an offset within a command and ends at the first zero byte or at the end
of the command. -/
def readName (h : CommandHeader) (nameOffset : UInt32) : Reader String :=
  if h.length < nameOffset then
    Reader.fail (.malformed h.offset (.nameBeyondCommand nameOffset h.length))
  else do
    Reader.seek (h.offset + nameOffset.toNat)
    Reader.fixedName (h.length - nameOffset).toNat

/-! ## Segments -/

/-- The section at the cursor. -/
def readSection : Reader SectionHeader := do
  let (name, segmentName, address, size, fileOffset, align, relocationOffset, relocationCount,
    flags, reserved1, reserved2, _) ← Reader.record .sectionHeader
  return {
    name := Name.ofField name.toList, segmentName := Name.ofField segmentName.toList, address, size,
    fileOffset, align, relocationOffset, relocationCount, flags, reserved1, reserved2 }

/-- A segment with its sections, which follow the record. -/
def readSegment (h : CommandHeader) : Reader CommandBody := do
  let (_, _, name, address, size, fileOffset, fileSize, greatest, initial, sectionCount, flags, _)
    ← readRecord h .segment
  if h.length.toNat < Record.segment.size + sectionCount.toNat * Record.sectionHeader.size then
    Reader.fail (.malformed h.offset (.sectionsBeyondCommand sectionCount h.length))
  else
    let sections ← Reader.times sectionCount.toNat readSection
    return .segment {
      name := Name.ofField name.toList, address, size, fileOffset, fileSize,
      greatestProtection := Flags.ofBits protectionFlags greatest,
      initialProtection := Flags.ofBits protectionFlags initial, sectionCount, flags, sections }

/-! ## Symbols -/

/-- A symbol table: the names are read first, then the entries. -/
def readSymtab (h : CommandHeader) : Reader CommandBody := do
  let (_, _, symbolOffset, symbolCount, nameOffset, nameSize, _) ← readRecord h .symtab
  let entries ← Reader.within do
    Reader.seek nameOffset.toNat
    let names ← Reader.slice nameSize.toNat
    Reader.seek symbolOffset.toNat
    Reader.times symbolCount.toNat (SymbolEntry.read names)
  Reader.note (.symbolsRead entries.length nameSize)
  return .symtab { symbolOffset, symbolCount, nameOffset, nameSize, entries }

/-- The indirect symbol table; an empty one may lie anywhere. -/
def readIndirect (offset count : UInt32) : Reader (List UInt32) :=
  if count = 0 then pure []
  else
    Reader.within do
      Reader.seek offset.toNat
      Reader.words count.toNat

/-- The parts of a symbol table, with the indirect symbol table. -/
def readDysymtab (h : CommandHeader) : Reader CommandBody := do
  let (_, _, localStart, localCount, definedStart, definedCount, undefinedStart, undefinedCount,
    contentsOffset, contentsCount, moduleOffset, moduleCount, referenceOffset, referenceCount,
    indirectOffset, indirectCount, externalRelocationOffset, externalRelocationCount,
    localRelocationOffset, localRelocationCount, _) ← readRecord h .dysymtab
  let indirectSymbols ← readIndirect indirectOffset indirectCount
  return .dysymtab {
    localStart, localCount, definedStart, definedCount, undefinedStart, undefinedCount,
    contentsOffset, contentsCount, moduleOffset, moduleCount, referenceOffset, referenceCount,
    indirectOffset, indirectCount, externalRelocationOffset, externalRelocationCount,
    localRelocationOffset, localRelocationCount, indirectSymbols }

/-! ## Names -/

/-- A library. -/
def readDylib (h : CommandHeader) : Reader CommandBody := do
  let (_, _, nameOffset, timestamp, currentVersion, compatibilityVersion, _)
    ← readRecord h .dylib
  let name ← readName h nameOffset
  return .dylib { name, timestamp, currentVersion, compatibilityVersion }

/-- A command that holds nothing but a name. -/
def readPath (h : CommandHeader) : Reader CommandBody := do
  let (_, _, nameOffset, _) ← readRecord h .path
  return .path (← readName h nameOffset)

/-! ## The loader's tables -/

/-- The bindings of a stream, with offsets of faults counted from the start of the file.  There are
none if the stream is empty or not to be read. -/
def readBindings (options : Options) (offset size : UInt32) :
    Reader (Option (List BindStream.Binding)) :=
  if size = 0 || !options.bindInfo then pure none
  else
    Reader.within do
      Reader.seek offset.toNat
      let stream ← Reader.bytes size.toNat
      let bindings ←
        Reader.report ((BindStream.parse stream).mapError (Error.shift offset.toNat))
          (BindStream.notes stream)
      return some bindings

/-- The count of bindings, none counting as zero. -/
def bindingCount (bindings : Option (List BindStream.Binding)) : Nat := (bindings.getD []).length

/-- The loader's tables.  The bindings are read in the order of their tables. -/
def readDyldInfo (options : Options) (h : CommandHeader) : Reader CommandBody := do
  let (_, _, rebaseOffset, rebaseSize, bindOffset, bindSize, weakBindOffset, weakBindSize,
    lazyBindOffset, lazyBindSize, exportOffset, exportSize, _) ← readRecord h .dyldInfo
  let bindings ← readBindings options bindOffset bindSize
  let weakBindings ← readBindings options weakBindOffset weakBindSize
  let lazyBindings ← readBindings options lazyBindOffset lazyBindSize
  Reader.note
    (.bindTablesRead (bindingCount bindings) (bindingCount weakBindings)
      (bindingCount lazyBindings))
  return .dyldInfo {
    rebaseOffset, rebaseSize, bindOffset, bindSize, weakBindOffset, weakBindSize, lazyBindOffset,
    lazyBindSize, exportOffset, exportSize, bindings, weakBindings, lazyBindings }

/-! ## Plain records -/

/-- The identifier of an image. -/
def readUuid (h : CommandHeader) : Reader CommandBody := do
  let (_, _, bytes, _) ← readRecord h .uuid
  return .uuid bytes

/-- The state in which the program starts; it follows the record. -/
def readThread (h : CommandHeader) : Reader CommandBody := do
  let (_, _, flavor, wordCount, _) ← readRecord h .thread
  if h.length.toNat < Record.thread.size + Record.armThreadState.size then
    Reader.fail (.commandTooSmall h.offset h.length)
  else
    let (r, sp, lr, pc, cpsr, _) ← Reader.record .armThreadState
    return .thread { flavor, wordCount, registers := { r, sp, lr, pc, cpsr } }

/-- An encrypted range. -/
def readEncryption (h : CommandHeader) : Reader CommandBody := do
  let (_, _, fileOffset, size, scheme, _) ← readRecord h .encryptionInfo
  return .encryption { fileOffset, size, scheme }

/-- A range of data for the link editor. -/
def readLinkedit (h : CommandHeader) : Reader CommandBody := do
  let (_, _, fileOffset, size, _) ← readRecord h .linkeditData
  return .linkedit { fileOffset, size }

/-- The least version of the system. -/
def readVersionMin (h : CommandHeader) : Reader CommandBody := do
  let (_, _, version, kit, _) ← readRecord h .versionMin
  return .versionMin { version, kit }

/-- The place of the main function. -/
def readMain (h : CommandHeader) : Reader CommandBody := do
  let (_, _, entryOffset, stackSize, _) ← readRecord h .entryPoint
  return .main { entryOffset, stackSize }

/-- The version of the source. -/
def readSourceVersion (h : CommandHeader) : Reader CommandBody := do
  let (_, _, version, _) ← readRecord h .sourceVersion
  return .sourceVersion version

/-- The tool at the cursor. -/
def readTool : Reader BuildTool := do
  let (tool, version, _) ← Reader.record .buildTool
  return { tool, version }

/-- The platform an image is built for, with the tools, which follow the record. -/
def readBuildVersion (h : CommandHeader) : Reader CommandBody := do
  let (_, _, platform, leastVersion, kit, toolCount, _) ← readRecord h .buildVersion
  if h.length.toNat < Record.buildVersion.size + toolCount.toNat * Record.buildTool.size then
    Reader.fail (.malformed h.offset (.toolsBeyondCommand toolCount))
  else
    let tools ← Reader.times toolCount.toNat readTool
    return .buildVersion { platform, leastVersion, kit, tools }

/-- The body of a command of a given shape. -/
def readBody (options : Options) (h : CommandHeader) : CommandShape → Reader CommandBody
  | .segment => readSegment h
  | .symtab => readSymtab h
  | .dysymtab => readDysymtab h
  | .dylib => readDylib h
  | .path => readPath h
  | .uuid => readUuid h
  | .thread => readThread h
  | .encryption => readEncryption h
  | .linkedit => readLinkedit h
  | .versionMin => readVersionMin h
  | .dyldInfo => readDyldInfo options h
  | .main => readMain h
  | .sourceVersion => readSourceVersion h
  | .buildVersion => readBuildVersion h

end Command

end MachImage
