import MachImage.Image.Build

/-!
# Questions about an image

Commands, segments, sections and symbols are found by name, number or
address.  An address in a table of stubs or pointers leads through the
indirect symbol table to the symbol that the entry there stands for
(`Image.resolve?`).
-/

namespace MachImage.Image

/-- The count of load commands, decoded or passed over. -/
def commandCount (image : Image) : Nat := image.commands.length + image.skipped.length

/-- The first command of a kind. -/
def command? (image : Image) (id : CommandId) : Option Command :=
  image.commands.find? fun c => c.id = id

/-- The first command with the tables of the loader. -/
def dyldInfo? (image : Image) : Option Command :=
  image.commands.find? fun c => c.dyldInfo?.isSome

/-- The state in which the program starts. -/
def thread? (image : Image) : Option ThreadCommand := image.commands.findSome? Command.thread?

/-- The place where the program starts. -/
def entryPoint? (image : Image) : Option UInt32 := image.thread?.map ThreadCommand.entryPoint

/-- A register of the state in which the program starts. -/
def register? (image : Image) (name : String) : Option UInt32 :=
  image.thread?.bind fun thread => thread.registers.get? name

/-- The first segment of a name. -/
def segment? (image : Image) (name : String) : Option Segment :=
  image.segments.find? fun s => s.name = name

/-- All sections in the order of their numbers. -/
def sections (image : Image) : List Section := image.segments.flatMap Segment.sections

/-- The section of a number, counted from one, at the place that the table has for it. -/
def section? (image : Image) : (number : Nat) → Option Section
  | 0 => none
  | place + 1 => image.places[place]?.bind (SegmentTable.sectionAt? image.segments)

/-- The symbol that an exposed name stands for. -/
def symbol? (image : Image) (name : String) : Option Symbol :=
  image.names[name]?.bind fun place => image.symbols[place]?

/-- The exposed names in order, each with its symbol. -/
def namedSymbols (image : Image) : List (String × Symbol) :=
  image.names.toList.filterMap fun (name, place) =>
    image.symbols[place]?.map fun s => (name, s)

/-- The count of exposed names. -/
def nameCount (image : Image) : Nat := image.names.size

/-! ## Parts -/

/-- The symbols of names, each taken out of the slot at the place of its name.  The slot is empty
from then on, and a name whose slot is empty or missing is left out. -/
def takeNamed : (slots : Array (Option Symbol)) → List (String × Nat) → List (String × Symbol)
  | _, [] => []
  | slots, (name, place) :: rest =>
    match slots[place]?.join with
    | some s => (name, s) :: takeNamed (slots.setIfInBounds place none) rest
    | none => takeNamed slots rest

/-- The segments and the symbols by name, taken in a given order of the names with their places. -/
def partsIn (image : Image) (order : List (String × Nat)) :
    List Segment × Std.TreeMap String Symbol :=
  (image.segments, Std.TreeMap.ofList (takeNamed (image.symbols.map some) order))

/-- The segments and the symbols by name. -/
def parts (image : Image) : List Segment × Std.TreeMap String Symbol :=
  image.partsIn image.names.toList

/-! ## Addresses -/

/-- The bits of an entry of the indirect symbol table that stands for no symbol: the symbol was
local, or absolute. -/
def noSymbolBits : UInt32 := 0xC0000000

/-- The section whose table an address lies in: the first one with entries that covers the address,
in the first segment that does. -/
def tableAt? (image : Image) (address : UInt32) : Option Section :=
  (image.segments.find? fun s => s.contains address).bind fun segment =>
    segment.sections.find? fun s => s.contains address && s.stride.isSome

/-- The place in the indirect symbol table of the entry of a section at an address, unless 32 bits
cannot hold it. -/
def indirectPlace? (s : Section) (address : UInt32) : Option Nat :=
  s.stride.bind fun stride =>
    if stride = 0 then none
    else
      let place := s.reserved1.toNat + ((address - s.address) / stride).toNat
      if place < UInt32.size then some place else none

/-- The symbol that an entry of the indirect symbol table stands for. -/
def symbolOfEntry? (image : Image) (entry : UInt32) : Option Symbol :=
  if entry &&& noSymbolBits = 0 then image.symbols[entry.toNat]? else none

/-- A symbol found at an address. -/
structure Resolved where
  address : UInt32
  symbol : Symbol
  deriving DecidableEq, Repr

/-- The symbol that the stub or pointer at an address stands for. -/
def resolve? (image : Image) (address : UInt32) : Option Resolved := do
  let table ← image.tableAt? address
  let place ← indirectPlace? table address
  let entry ← image.indirectSymbols[place]?
  let symbol ← image.symbolOfEntry? entry
  return { address, symbol }

/-- The events that finding the symbol at an address publishes. -/
def resolveEvents (image : Image) (address : UInt32) : List Event :=
  ((image.resolve? address).map fun r => .addressResolved r.address r.symbol).toList

end MachImage.Image
