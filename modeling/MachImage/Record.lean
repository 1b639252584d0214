import MachImage.Reader
import MachImage.Record.Layout

/-!
# The records of an image

An image is made of records of twenty kinds, each with a fixed layout.  A
load command starts with a record whose first two words are its identifier
and its length.
-/

namespace MachImage

/-- The kinds of record. -/
inductive Record where
  | header
  /-- The identifier and the length that start every load command. -/
  | commandHeader
  | segment
  | sectionHeader
  | symtab
  | dysymtab
  /-- An entry of a symbol table. -/
  | symbol
  | dyldInfo
  | linkeditData
  | dylib
  | path
  | uuid
  | thread
  | armThreadState
  | encryptionInfo
  | versionMin
  | buildVersion
  | buildTool
  | entryPoint
  | sourceVersion
  deriving DecidableEq, Repr

namespace Record

/-- The layout of a load command: its identifier and its length, then the rest. -/
@[reducible] def ofCommand (rest : Layout) : Layout := .u32 :: .u32 :: rest

/-- The fields of a record. -/
@[reducible] def layout : Record → Layout
  -- magic, processor, its kind, file type, count and size of commands, flags
  | header => [.u32, .u32, .u32, .u32, .u32, .u32, .u32]
  | commandHeader => ofCommand []
  -- name, address, size, file offset, file size, greatest and initial protection, sections, flags
  | segment => ofCommand [.bytes 16, .u32, .u32, .u32, .u32, .u32, .u32, .u32, .u32]
  -- name, segment name, address, size, offset, alignment, relocations, their count, flags and two
  -- words whose meaning depends on the type
  | sectionHeader =>
    [.bytes 16, .bytes 16, .u32, .u32, .u32, .u32, .u32, .u32, .u32, .u32, .u32]
  -- offset and count of the symbols, offset and size of the names
  | symtab => ofCommand [.u32, .u32, .u32, .u32]
  -- start and count of three groups of symbols; offset and count of six tables
  | dysymtab =>
    ofCommand
      [.u32, .u32, .u32, .u32, .u32, .u32, .u32, .u32, .u32, .u32, .u32, .u32, .u32, .u32, .u32,
        .u32, .u32, .u32]
  -- name offset, type, section, description, value
  | symbol => [.u32, .u8, .u8, .u16, .u32]
  -- offset and size of five tables
  | dyldInfo => ofCommand [.u32, .u32, .u32, .u32, .u32, .u32, .u32, .u32, .u32, .u32]
  | linkeditData => ofCommand [.u32, .u32]
  -- name offset, timestamp, current version, compatibility version
  | dylib => ofCommand [.u32, .u32, .u32, .u32]
  | path => ofCommand [.u32]
  | uuid => ofCommand [.bytes 16]
  -- flavor, count of words of state
  | thread => ofCommand [.u32, .u32]
  -- r0 to r12, stack pointer, link register, program counter, status
  | armThreadState => [.words 13, .u32, .u32, .u32, .u32]
  | encryptionInfo => ofCommand [.u32, .u32, .u32]
  | versionMin => ofCommand [.u32, .u32]
  -- platform, least version, version of the kit, count of tools
  | buildVersion => ofCommand [.u32, .u32, .u32, .u32]
  | buildTool => [.u32, .u32]
  -- file offset, stack size
  | entryPoint => ofCommand [.u64, .u64]
  | sourceVersion => ofCommand [.u64]

/-- The values of a record. -/
@[reducible] def Values (r : Record) : Type := r.layout.Values

/-- The count of bytes a record takes. -/
def size (r : Record) : Nat := r.layout.size

/-- A record as bytes. -/
def encode (r : Record) (v : r.Values) : List UInt8 := r.layout.encode v

/-- The record at the front of a list of bytes. -/
def decode (r : Record) (bs : List UInt8) : r.Values := r.layout.decode bs

end Record

namespace Reader

/-- The record at the cursor. -/
def record (r : Record) : Reader r.Values := do
  return r.decode (← bytes r.size)

end Reader

end MachImage
