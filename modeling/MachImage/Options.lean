/-!
# Options of reading

What is read of an image, and how strictly.
-/

namespace MachImage

/-- What to read of an image. -/
structure Options where
  /-- Whether bind streams are read. -/
  bindInfo : Bool := true
  /-- Whether the contents of segments are read. -/
  segmentData : Bool := true
  /-- Whether a symbol in a section that does not exist is a failure. -/
  strictSections : Bool := false
  deriving DecidableEq, Repr

end MachImage
