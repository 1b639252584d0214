import MachImage.Header.Basic
import MachImage.Record

/-!
# Reading the header

A header is accepted if it starts with the right number and names a processor,
a kind of processor and a kind of file that are known.  The magic number is
checked before anything is read, so that a file of another kind is told apart
from an image that is cut short.
-/

namespace MachImage.Header

/-- The cause for refusing a number at the start of an image. -/
def checkMagic (magic : UInt32) : Except Error Unit :=
  if magic = expectedMagic then .ok ()
  else if magic = swappedMagic then .error .byteSwapped
  else .error (.invalidMagic magic)

/-- Checks the magic number at the cursor; the cursor stays. -/
def validate : Reader Unit := fun image pos =>
  if image.size < pos + 4 then ⟨.error (.tooShortForMagic (image.size - pos)), pos, []⟩
  else ⟨checkMagic (LittleEndian.u32 (window image pos 4)), pos, []⟩

/-- The header at the cursor. -/
def read : Reader Header := do
  validate
  let (magic, cpu, subtype, file, commandCount, commandBytes, flagBits, _) ←
    Reader.record .header
  let cpuType ← Reader.demand (Coded.ofCode? cpu) (.unknownCpuType cpu)
  let cpuSubtype ← Reader.demand (Coded.ofCode? subtype) (.unknownCpuSubtype subtype)
  let fileType ← Reader.demand (Coded.ofCode? file) (.unknownFileType file)
  let header : Header :=
    { magic, cpuType, cpuSubtype, fileType, commandCount, commandBytes, flagBits }
  Reader.note (.headerRead header)
  return header

/-- A header as the record that stores it. -/
def toRecord (h : Header) : Record.header.Values :=
  (h.magic, Coded.code h.cpuType, Coded.code h.cpuSubtype, Coded.code h.fileType, h.commandCount,
    h.commandBytes, h.flagBits, ())

end MachImage.Header
