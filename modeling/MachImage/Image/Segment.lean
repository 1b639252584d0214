import MachImage.Command.Basic
import MachImage.Reader
import MachImage.Options

/-!
# Segments and sections of an image

The segments of an image are those of its commands, with their contents.  The
sections are numbered from one over the whole image, across segments.
-/

namespace MachImage

/-- A section of an image. -/
structure Section where
  /-- The number of the section, counted from one over the whole image. -/
  number : Nat
  /-- The name of the segment that holds the section. -/
  segment : String
  name : String
  address : UInt32
  size : UInt32
  fileOffset : UInt32
  align : UInt32
  relocationOffset : UInt32
  relocationCount : UInt32
  type : Option SectionType
  attributes : Flags sectionAttributes
  reserved1 : UInt32
  reserved2 : UInt32
  deriving DecidableEq, Repr

/-- A segment of an image with its contents. -/
structure Segment where
  name : String
  address : UInt32
  size : UInt32
  fileOffset : UInt32
  /-- The bytes of the file that fill the segment, if they were read. -/
  contents : List UInt8
  sections : List Section
  deriving DecidableEq, Repr

namespace Section

/-- The section that a command declares. -/
def ofHeader (number : Nat) (segment : String) (h : SectionHeader) : Section :=
  { number, segment, name := h.name, address := h.address, size := h.size,
    fileOffset := h.fileOffset, align := h.align, relocationOffset := h.relocationOffset,
    relocationCount := h.relocationCount, type := h.type, attributes := h.attributes,
    reserved1 := h.reserved1, reserved2 := h.reserved2 }

/-- Consecutively numbered sections of one segment. -/
def ofHeaders (segment : String) : (number : Nat) → List SectionHeader → List Section
  | _, [] => []
  | number, h :: hs => ofHeader number segment h :: ofHeaders segment (number + 1) hs

/-- Whether an address lies in the section. -/
def contains (s : Section) (address : UInt32) : Bool := inRange s.address s.size address

/-- The name of the segment and of the section. -/
def fullName (s : Section) : String := s.segment ++ "," ++ s.name

/-- The size of an entry of a section whose entries are named through the indirect symbol table. -/
def stride (s : Section) : Option UInt32 :=
  match s.type with
  | some .symbolStubs => some s.reserved2
  | some type => if type.isIndirect then some 4 else none
  | none => none

end Section

namespace Segment

/-- The name of a segment that has none. -/
def unnamed : String := "*NONAME*"

/-- The name a segment is known by: its own, or the one its first section records. -/
def displayName (c : SegmentCommand) : String :=
  if c.name ≠ "" then c.name
  else
    match c.sections with
    | [] => unnamed
    | first :: _ => if first.segmentName ≠ "" then first.segmentName else unnamed

/-- The bytes of the file that fill a segment. -/
def contentsReader (c : SegmentCommand) : Reader (List UInt8) := do
  Reader.seek c.fileOffset.toNat
  Reader.bytes c.fileSize.toNat

/-- The bytes of the file that fill a segment; none if they are not to be read. -/
def readContents (options : Options) (image : ByteArray) (c : SegmentCommand) :
    Except Error (List UInt8) :=
  if options.segmentData then (contentsReader c image 0).result else .ok []

/-- The segment of a command, with its sections numbered from `number` on. -/
def ofCommand (number : Nat) (c : SegmentCommand) (contents : List UInt8) : Segment :=
  { name := displayName c, address := c.address, size := c.size, fileOffset := c.fileOffset,
    contents, sections := Section.ofHeaders (displayName c) number c.sections }

/-- The places of the sections of a segment, which is the segment at `position`: each is the place
of the segment with that of the section in it. -/
def placesAt (s : Segment) (position : Nat) : List (Nat × Nat) :=
  (List.range s.sections.length).map fun i => (position, i)

/-- Whether an address lies in the segment. -/
def contains (s : Segment) (address : UInt32) : Bool := inRange s.address s.size address

/-- The first section of a name. -/
def section? (s : Segment) (name : String) : Option Section :=
  s.sections.find? fun t => t.name = name

end Segment

end MachImage
