import MachImage.Command.Id
import MachImage.Text.Hex

/-!
# Why reading an image fails

Every failure is one of the causes below and ends the reading that met it.
`Error.message` is the only place where causes are put into words.
-/

namespace MachImage

/-- Why a part of an image is malformed. -/
inductive Reason where
  /-- A name runs to the end of the data without a zero byte. -/
  | unterminatedName
  /-- The name of a command starts beyond the end of the command. -/
  | nameBeyondCommand (nameOffset length : UInt32)
  /-- A segment command is too short for its sections. -/
  | sectionsBeyondCommand (count length : UInt32)
  /-- A build version command is too short for its tools. -/
  | toolsBeyondCommand (count : UInt32)
  /-- A library ordinal does not fit a signed 64-bit number. -/
  | ordinalTooLarge
  /-- A library ordinal has no meaning. -/
  | unknownOrdinal (ordinal : Int)
  /-- A repeated bind covers more than the address space. -/
  | repeatTooLong
  deriving DecidableEq, Repr

namespace Reason

/-- The reason in words. -/
def message : Reason → String
  | unterminatedName => "unterminated string"
  | nameBeyondCommand nameOffset length =>
    "string offset " ++ toString nameOffset.toNat ++ " beyond command length " ++
      toString length.toNat
  | sectionsBeyondCommand count length =>
    "segment declares " ++ toString count.toNat ++ " sections but command is only " ++
      toString length.toNat ++ " bytes"
  | toolsBeyondCommand count =>
    "build version declares " ++ toString count.toNat ++ " tools past command end"
  | ordinalTooLarge => "dylib ordinal out of range"
  | unknownOrdinal ordinal => "unknown dylib ordinal " ++ toString ordinal
  | repeatTooLong => "bind repeat count exceeds address space"

end Reason

/-- The cause of a failure. -/
inductive Error where
  /-- The file of an image cannot be opened. -/
  | cannotOpen (path : String)
  /-- The file of an image can be opened but not mapped into memory. -/
  | cannotMap (path : String)
  /-- There are too few bytes for the number every image starts with. -/
  | tooShortForMagic (available : Nat)
  | invalidMagic (magic : UInt32)
  /-- The image is stored with its bytes in the opposite order. -/
  | byteSwapped
  | unknownCpuType (raw : UInt32)
  | unknownCpuSubtype (raw : UInt32)
  | unknownFileType (raw : UInt32)
  /-- A known kind of command that is not decoded. -/
  | unsupportedCommand (id : CommandId) (offset : Nat)
  /-- A command declares fewer bytes than it needs. -/
  | commandTooSmall (offset : Nat) (length : UInt32)
  /-- A symbol names a section that does not exist. -/
  | sectionOutOfRange (symbol : String) (index : UInt8) (count : Nat)
  | unknownBindOpcode (opcode : UInt8) (offset : Nat)
  | invalidUnsignedLeb (offset : Nat)
  | invalidSignedLeb (offset : Nat)
  | malformed (offset : Nat) (reason : Reason)
  /-- Bytes beyond the end of the image are needed. -/
  | bufferTooSmall (needed available : Nat)
  deriving DecidableEq, Repr

namespace Error

/-- The cause in words. -/
def message : Error → String
  | cannotOpen path => "failed to open file '" ++ path ++ "'"
  | cannotMap path => "failed to memory map file '" ++ path ++ "'"
  | tooShortForMagic available =>
    "not a Mach-O image: " ++ toString available ++ " bytes is too short for a magic number"
  | invalidMagic magic => "invalid Mach-O magic: " ++ Hex.numeral magic.toNat
  | byteSwapped => "byte-swapped Mach-O image: big-endian images are not supported"
  | unknownCpuType raw => "unknown CPU type: " ++ Hex.numeral raw.toNat
  | unknownCpuSubtype raw => "unknown CPU subtype: " ++ Hex.numeral raw.toNat
  | unknownFileType raw => "unknown Mach-O file type: " ++ Hex.numeral raw.toNat
  | unsupportedCommand id offset =>
    "unsupported load command " ++ Coded.name id ++ " at offset " ++ Hex.numeral offset
  | commandTooSmall offset length =>
    "load command at offset " ++ Hex.numeral offset ++ " declares length " ++
      toString length.toNat ++ ", smaller than its header"
  | sectionOutOfRange symbol index count =>
    "symbol '" ++ symbol ++ "' references section " ++ toString index.toNat ++ ", but only " ++
      toString count ++ " sections exist"
  | unknownBindOpcode opcode offset =>
    "unknown bind opcode " ++ Hex.numeralPadded 2 opcode.toNat ++ " at offset " ++
      Hex.numeral offset
  | invalidUnsignedLeb offset => "invalid ULEB128 at offset " ++ Hex.numeral offset
  | invalidSignedLeb offset => "invalid SLEB128 at offset " ++ Hex.numeral offset
  | malformed offset reason =>
    "parse error at offset " ++ Hex.numeral offset ++ ": " ++ reason.message
  | bufferTooSmall needed available =>
    "buffer too small: need " ++ toString needed ++ " bytes, have " ++ toString available

/-- Whether the cause is an instruction of a bind stream that cannot be read, so that reading the
image again without its bind streams may succeed. -/
def isBindStreamError : Error → Bool
  | unknownBindOpcode .. | invalidUnsignedLeb .. | invalidSignedLeb .. => true
  | _ => false

/-- The same cause with its offset counted from `base` bytes earlier, for the causes that a bind
stream can have. -/
def shift (base : Nat) : Error → Error
  | unknownBindOpcode opcode offset => unknownBindOpcode opcode (base + offset)
  | invalidUnsignedLeb offset => invalidUnsignedLeb (base + offset)
  | invalidSignedLeb offset => invalidSignedLeb (base + offset)
  | malformed offset reason => malformed (base + offset) reason
  | e => e

@[simp] theorem isBindStreamError_shift (base : Nat) (e : Error) :
    (e.shift base).isBindStreamError = e.isBindStreamError := by
  cases e <;> rfl

end Error

end MachImage
