import MachImage.Image.Segment
import MachImage.Symbol.Basic

/-!
# Events

While an image is read and built, an event is published for each thing that is
complete: a command once it is decoded, a segment and its sections once the
contents of the segment are read, a symbol once it can be found by its name.
-/

namespace MachImage

/-- Something that was completed. -/
inductive Event where
  | commandDecoded (c : Command)
  | segmentBuilt (s : Segment)
  | sectionBuilt (s : Section)
  | symbolExposed (s : Symbol)
  | addressResolved (address : UInt32) (s : Symbol)
  deriving DecidableEq, Repr

/-- The name an event is published under. -/
def Event.name : Event → String
  | commandDecoded _ => "macho_command_decoded"
  | segmentBuilt _ => "segment_materialized"
  | sectionBuilt _ => "section_materialized"
  | symbolExposed _ => "symbol_materialized"
  | addressResolved _ _ => "macho_indirect_symbol_resolved"

/-- The events of a segment: its own and those of its sections. -/
def Segment.events (s : Segment) : List Event := .segmentBuilt s :: s.sections.map .sectionBuilt

end MachImage
