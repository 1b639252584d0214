import MachImage.Header.Machine
import MachImage.Text.Hex

/-!
# The header of an image

What the header says, and how it is shown in one line.
-/

namespace MachImage

/-- The header of a 32-bit ARM image. -/
structure Header where
  /-- The number every image starts with. -/
  magic : UInt32
  cpuType : CpuType
  cpuSubtype : CpuSubtype
  fileType : FileType
  /-- How many load commands follow. -/
  commandCount : UInt32
  /-- How many bytes the load commands take. -/
  commandBytes : UInt32
  /-- The word of header flags, as stored. -/
  flagBits : UInt32
  deriving DecidableEq, Repr

namespace Header

/-- The number at the start of an image. -/
def expectedMagic : UInt32 := 0xFEEDFACE

/-- The number at the start of an image with its bytes in the opposite order. -/
def swappedMagic : UInt32 := 0xCEFAEDFE

/-- The header flags that have a name. -/
def flags (h : Header) : Flags headerFlags := Flags.ofBits headerFlags h.flagBits

/-- Whether the image binds each symbol to a named library. -/
def isTwoLevel (h : Header) : Bool := h.flags.has twoLevelFlag

/-- The architecture the image is for. -/
def architecture (h : Header) : String := h.cpuType.architecture

/-- The header in one line. -/
def text (h : Header) : String :=
  "MachO \x7b arch: " ++ h.cpuSubtype.architecture ++ ", type: " ++ Coded.name h.fileType ++
    ", cmds: " ++ toString h.commandCount.toNat ++ ", flags: " ++ Hex.numeral h.flagBits.toNat ++
    " \x7d"

end Header

end MachImage
