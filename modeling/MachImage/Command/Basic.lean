import MachImage.BindStream.Binding
import MachImage.Command.Id
import MachImage.Section.Kind
import MachImage.Symbol.Basic
import MachImage.Text.Version

/-!
# Load commands

A load command has a header, which says what it is and where it lies, and a
body of one of fourteen shapes.
-/

namespace MachImage

/-- What a load command is and where it lies. -/
structure CommandHeader where
  id : CommandId
  /-- The count of bytes of the whole command. -/
  length : UInt32
  /-- Where the command starts. -/
  offset : Nat
  deriving DecidableEq, Repr

/-- Where a command ends. -/
def CommandHeader.endOffset (h : CommandHeader) : Nat := h.offset + h.length.toNat

/-- A command whose identifier is not known. -/
structure SkippedCommand where
  raw : UInt32
  length : UInt32
  offset : Nat
  deriving DecidableEq, Repr

/-- Whether an address lies in a range of the address space.  The distance from the start is
compared with the size, so that a range may reach the end of the address space. -/
def inRange (start size address : UInt32) : Bool := start ≤ address && address - start < size

/-! ## Bodies -/

/-- A section as its segment command declares it. -/
structure SectionHeader where
  name : String
  /-- The name of a segment that the section itself records. -/
  segmentName : String
  address : UInt32
  size : UInt32
  fileOffset : UInt32
  /-- The power of two the address is a multiple of. -/
  align : UInt32
  relocationOffset : UInt32
  relocationCount : UInt32
  flags : UInt32
  /-- For tables of pointers and stubs, the first entry of the indirect symbol table. -/
  reserved1 : UInt32
  /-- For tables of stubs, the size of a stub. -/
  reserved2 : UInt32
  deriving DecidableEq, Repr

namespace SectionHeader

/-- The type of a section. -/
def type (s : SectionHeader) : Option SectionType := SectionType.ofFlags? s.flags

/-- The attributes of a section. -/
def attributes (s : SectionHeader) : Flags sectionAttributes := attributesOfFlags s.flags

end SectionHeader

/-- A part of the address space with the part of the file that fills it. -/
structure SegmentCommand where
  name : String
  address : UInt32
  size : UInt32
  fileOffset : UInt32
  fileSize : UInt32
  greatestProtection : Flags protectionFlags
  initialProtection : Flags protectionFlags
  sectionCount : UInt32
  flags : UInt32
  sections : List SectionHeader
  deriving DecidableEq, Repr

/-- Whether an address lies in the segment. -/
def SegmentCommand.contains (s : SegmentCommand) (address : UInt32) : Bool :=
  inRange s.address s.size address

/-- A symbol table. -/
structure SymtabCommand where
  symbolOffset : UInt32
  symbolCount : UInt32
  nameOffset : UInt32
  nameSize : UInt32
  entries : List SymbolEntry
  deriving DecidableEq, Repr

/-- The parts of a symbol table that the loader uses, and the indirect symbol table. -/
structure DysymtabCommand where
  localStart : UInt32
  localCount : UInt32
  definedStart : UInt32
  definedCount : UInt32
  undefinedStart : UInt32
  undefinedCount : UInt32
  contentsOffset : UInt32
  contentsCount : UInt32
  moduleOffset : UInt32
  moduleCount : UInt32
  referenceOffset : UInt32
  referenceCount : UInt32
  indirectOffset : UInt32
  indirectCount : UInt32
  externalRelocationOffset : UInt32
  externalRelocationCount : UInt32
  localRelocationOffset : UInt32
  localRelocationCount : UInt32
  indirectSymbols : List UInt32
  deriving DecidableEq, Repr

/-- The words of the command in the order in which they are stored. -/
def DysymtabCommand.words (c : DysymtabCommand) : List UInt32 :=
  [c.localStart, c.localCount, c.definedStart, c.definedCount, c.undefinedStart,
    c.undefinedCount, c.contentsOffset, c.contentsCount, c.moduleOffset, c.moduleCount,
    c.referenceOffset, c.referenceCount, c.indirectOffset, c.indirectCount,
    c.externalRelocationOffset, c.externalRelocationCount, c.localRelocationOffset,
    c.localRelocationCount]

/-- A library that the image loads, or the image itself as a library. -/
structure DylibCommand where
  name : String
  timestamp : UInt32
  currentVersion : UInt32
  compatibilityVersion : UInt32
  deriving DecidableEq, Repr

/-- The registers of an ARM processor. -/
structure ArmRegisters where
  /-- The registers `r0` to `r12`. -/
  r : Vector UInt32 13
  sp : UInt32
  lr : UInt32
  pc : UInt32
  cpsr : UInt32
  deriving DecidableEq, Repr

namespace ArmRegisters

/-- The names of the registers in the order in which they are stored. -/
def names : List String :=
  ["r0", "r1", "r2", "r3", "r4", "r5", "r6", "r7", "r8", "r9", "r10", "r11", "r12", "sp", "lr",
    "pc", "cpsr"]

/-- The registers in the order in which they are stored. -/
def values (regs : ArmRegisters) : List UInt32 :=
  regs.r.toList ++ [regs.sp, regs.lr, regs.pc, regs.cpsr]

/-- The registers with their names. -/
def toList (regs : ArmRegisters) : List (String × UInt32) := names.zip regs.values

/-- The register of a name. -/
def get? (regs : ArmRegisters) (name : String) : Option UInt32 := regs.toList.lookup name

end ArmRegisters

/-- The state in which the program starts. -/
structure ThreadCommand where
  flavor : UInt32
  /-- The count of words of the state, as declared. -/
  wordCount : UInt32
  registers : ArmRegisters
  deriving DecidableEq, Repr

/-- The place where the program starts. -/
def ThreadCommand.entryPoint (c : ThreadCommand) : UInt32 := c.registers.pc

/-- The range of the file that is encrypted. -/
structure EncryptionCommand where
  fileOffset : UInt32
  size : UInt32
  /-- The scheme of encryption, zero for none. -/
  scheme : UInt32
  deriving DecidableEq, Repr

/-- A range of the file that holds data for the link editor. -/
structure LinkeditCommand where
  fileOffset : UInt32
  size : UInt32
  deriving DecidableEq, Repr

/-- The least version of the system. -/
structure VersionMinCommand where
  version : UInt32
  kit : UInt32
  deriving DecidableEq, Repr

/-- The tables of the loader: offset and size of each, and the bindings of three of them. -/
structure DyldInfoCommand where
  rebaseOffset : UInt32
  rebaseSize : UInt32
  bindOffset : UInt32
  bindSize : UInt32
  weakBindOffset : UInt32
  weakBindSize : UInt32
  lazyBindOffset : UInt32
  lazyBindSize : UInt32
  exportOffset : UInt32
  exportSize : UInt32
  /-- The bindings, unless the table is empty or was not to be read. -/
  bindings : Option (List BindStream.Binding)
  weakBindings : Option (List BindStream.Binding)
  lazyBindings : Option (List BindStream.Binding)
  deriving DecidableEq, Repr

/-- The words of the command in the order in which they are stored. -/
def DyldInfoCommand.words (c : DyldInfoCommand) : List UInt32 :=
  [c.rebaseOffset, c.rebaseSize, c.bindOffset, c.bindSize, c.weakBindOffset, c.weakBindSize,
    c.lazyBindOffset, c.lazyBindSize, c.exportOffset, c.exportSize]

/-- The place of the main function in the file. -/
structure MainCommand where
  entryOffset : UInt64
  stackSize : UInt64
  deriving DecidableEq, Repr

/-- A tool that took part in building the image. -/
structure BuildTool where
  tool : UInt32
  version : UInt32
  deriving DecidableEq, Repr

/-- The platform an image is built for. -/
structure BuildVersionCommand where
  platform : UInt32
  leastVersion : UInt32
  kit : UInt32
  tools : List BuildTool
  deriving DecidableEq, Repr

/-- What a load command says. -/
inductive CommandBody where
  | segment (c : SegmentCommand)
  | symtab (c : SymtabCommand)
  | dysymtab (c : DysymtabCommand)
  | dylib (c : DylibCommand)
  | path (name : String)
  | uuid (bytes : Vector UInt8 16)
  | thread (c : ThreadCommand)
  | encryption (c : EncryptionCommand)
  | linkedit (c : LinkeditCommand)
  | versionMin (c : VersionMinCommand)
  | dyldInfo (c : DyldInfoCommand)
  | main (c : MainCommand)
  | sourceVersion (version : UInt64)
  | buildVersion (c : BuildVersionCommand)
  deriving DecidableEq, Repr

/-- A load command. -/
structure Command where
  header : CommandHeader
  body : CommandBody
  deriving DecidableEq, Repr

namespace Command

/-- The kind of a command. -/
def id (c : Command) : CommandId := c.header.id

/-- Whether the command names a library that the image depends on. -/
def loadsLibrary (c : Command) : Bool := c.id.loadsLibrary

/-- The segment a command declares. -/
def segment? (c : Command) : Option SegmentCommand :=
  match c.body with
  | .segment s => some s
  | _ => none

/-- The symbol table of a command. -/
def symtab? (c : Command) : Option SymtabCommand :=
  match c.body with
  | .symtab s => some s
  | _ => none

/-- The indirect symbol table of a command and what goes with it. -/
def dysymtab? (c : Command) : Option DysymtabCommand :=
  match c.body with
  | .dysymtab s => some s
  | _ => none

/-- The library a command names. -/
def dylib? (c : Command) : Option DylibCommand :=
  match c.body with
  | .dylib d => some d
  | _ => none

/-- The tables of the loader in a command. -/
def dyldInfo? (c : Command) : Option DyldInfoCommand :=
  match c.body with
  | .dyldInfo d => some d
  | _ => none

/-- The thread state of a command. -/
def thread? (c : Command) : Option ThreadCommand :=
  match c.body with
  | .thread t => some t
  | _ => none

end Command

end MachImage
