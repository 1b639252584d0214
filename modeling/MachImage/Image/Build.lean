import MachImage.Command.Walk
import MachImage.Header.Read
import MachImage.Image.Report
import Std.Data.TreeMap

/-!
# Building an image

An image is built in stages: the header, the load commands, the segments with
their sections, the libraries, the symbols and the indirect symbol table.
Each stage works on what the earlier ones found, and only the header, the
commands and the contents of segments are read from the file.
-/

namespace MachImage

/-- The exposed names of an image, in order, each with the place of its symbol in the table. -/
abbrev NameTable := Std.TreeMap String Nat

/-- A decoded image. -/
structure Image where
  header : Header
  /-- The decoded commands, in file order. -/
  commands : List Command
  /-- The commands of unknown kinds, in file order. -/
  skipped : List SkippedCommand
  segments : List Segment
  /-- The place of each section, in the order of their numbers: that of its segment, and its own in
  the segment. -/
  places : List (Nat × Nat)
  /-- The names of the libraries that symbols refer to by their place. -/
  libraries : List String
  /-- The symbols in the order of the table, debugging entries included. -/
  symbols : Array Symbol
  /-- The place of the symbol that each exposed name stands for. -/
  names : NameTable
  indirectSymbols : Array UInt32

/-- The segments of an image, as far as their contents could be read. -/
structure SegmentTable where
  segments : List Segment
  /-- The place of each section: that of its segment, and its own in the segment. -/
  places : List (Nat × Nat)
  /-- What was published: a segment with its sections once its contents are read. -/
  events : List Event
  /-- Why the contents of the next segment could not be read. -/
  failure : Option Error

namespace SegmentTable

/-- The segments of commands, the first of them at `position` among the segments, with their
sections numbered from `number` on. -/
def build (options : Options) (image : ByteArray) :
    (position number : Nat) → List SegmentCommand → SegmentTable
  | _, _, [] => ⟨[], [], [], none⟩
  | position, number, c :: cs =>
    match Segment.readContents options image c with
    | .error e => ⟨[], [], [], some e⟩
    | .ok contents =>
      let segment := Segment.ofCommand number c contents
      let rest := build options image (position + 1) (number + segment.sections.length) cs
      ⟨segment :: rest.segments, segment.placesAt position ++ rest.places,
        segment.events ++ rest.events, rest.failure⟩

/-- The section at a place. -/
def sectionAt? (segments : List Segment) (place : Nat × Nat) : Option Section :=
  segments[place.1]?.bind fun s => s.sections[place.2]?

end SegmentTable

namespace Image

/-! ## Header and commands -/

/-- The header at the start of the file, and where the commands start. -/
def readHeader (image : ByteArray) : Report (Header × Nat) :=
  let outcome := Header.read image 0
  ⟨outcome.result.map fun header => (header, outcome.cursor), [], outcome.notes⟩

/-- The load commands of the file, from the cursor on. -/
def readCommands (options : Options) (image : ByteArray) (count start : Nat) : Reading Walk :=
  let walk := Walk.run options image count start
  { result := Report.resultOf walk.failure walk, events := walk.events,
    notes := walk.notes ++ walk.summary start, cursor := walk.cursor }

/-! ## Segments -/

/-- The segments of the commands, with the places of their sections. -/
def buildSegments (options : Options) (image : ByteArray) (commands : List Command) :
    Report SegmentTable :=
  let table := SegmentTable.build options image 0 1 (commands.filterMap Command.segment?)
  ⟨Report.resultOf table.failure table, table.events,
    match table.failure with
    | some _ => []
    | none => [.segmentsBuilt table.segments.length table.places.length]⟩

/-! ## Libraries -/

/-- The names of the libraries that commands load, in order. -/
def loadedLibraries (commands : List Command) : List String :=
  (commands.filter Command.loadsLibrary).filterMap fun c => c.dylib?.map DylibCommand.name

/-- The libraries that symbols refer to by place; there are none unless symbols are bound to named
libraries. -/
def listLibraries (header : Header) (commands : List Command) : Report (List String) :=
  if header.isTwoLevel then
    let libraries := loadedLibraries commands
    ⟨.ok libraries, [], [.librariesListed libraries.length]⟩
  else pure []

/-! ## Symbols -/

/-- What symbols can refer to. -/
structure Targets where
  strictSections : Bool
  sectionCount : Nat
  twoLevel : Bool
  libraries : List String

namespace Targets

/-- The section an entry is defined in.  An entry in a section that does not exist is in none, or a
failure if sections are strict. -/
def placeIn (t : Targets) (e : SymbolEntry) : Except Error (Option Nat) :=
  match e.section? with
  | none => .ok none
  | some number =>
    if number.toNat ≤ t.sectionCount then .ok (some number.toNat)
    else if t.strictSections then .error (.sectionOutOfRange e.name number t.sectionCount)
    else .ok none

/-- The note on an entry in a section that does not exist. -/
def ignoredSection? (t : Targets) (e : SymbolEntry) : Option Note :=
  match e.section? with
  | none => none
  | some number =>
    if number.toNat ≤ t.sectionCount then none
    else some (.sectionIgnored e.name number t.sectionCount)

/-- The library an entry is looked up in, under two-level binding and by its place from one. -/
def libraryOf (t : Targets) (e : SymbolEntry) : Option String :=
  if e.isStab || !t.twoLevel then none
  else
    match e.description.library.position? with
    | some position => if position = 0 then none else t.libraries[position.toNat - 1]?
    | none => none

/-- The symbol of an entry. -/
def resolve (t : Targets) (e : SymbolEntry) : Except Error Symbol :=
  (t.placeIn e).map fun place => e.toSymbol place (t.libraryOf e)

end Targets

/-- What exposing symbols under their names comes to. -/
structure Exposure where
  names : NameTable
  events : List Event

/-- Exposes symbols, the first of them at a place of the table, over names exposed before.  Each is
published when its name is kept. -/
def expose (names : NameTable) : (place : Nat) → List Symbol → Exposure
  | _, [] => ⟨names, []⟩
  | place, s :: symbols =>
    if s.isExposed then
      let rest := expose (names.insert s.name place) (place + 1) symbols
      ⟨rest.names, .symbolExposed s :: rest.events⟩
    else expose names (place + 1) symbols

/-- The place of the last symbol of each exposed name. -/
def exposedNames (symbols : List Symbol) : NameTable := (expose ∅ 0 symbols).names

/-- The symbols of a table of entries, exposed once all are resolved. -/
def resolveEntries (t : Targets) (entries : List SymbolEntry) : Report (List Symbol) :=
  match entries.mapM t.resolve with
  | .error e => ⟨.error e, [], []⟩
  | .ok symbols =>
    let exposure := expose ∅ 0 symbols
    ⟨.ok symbols, exposure.events,
      entries.filterMap t.ignoredSection? ++ [.symbolsBuilt symbols.length exposure.names.size]⟩

/-- The symbols of the first symbol table among the commands. -/
def buildSymbols (t : Targets) (commands : List Command) : Report (List Symbol) :=
  match commands.findSome? Command.symtab? with
  | some table => resolveEntries t table.entries
  | none => pure []

/-- The first indirect symbol table among the commands. -/
def indirectTable (commands : List Command) : List UInt32 :=
  match commands.findSome? Command.dysymtab? with
  | some table => table.indirectSymbols
  | none => []

/-! ## The whole -/

/-- The image in a file, with the events and notes of the building. -/
def build (options : Options) (image : ByteArray) : Report Image := do
  let (header, start) ← readHeader image
  let walk ← (readCommands options image header.commandCount.toNat start).toReport
  let commands := walk.commands
  let table ← buildSegments options image commands
  let libraries ← listLibraries header commands
  let targets : Targets :=
    { strictSections := options.strictSections,
      sectionCount := table.places.length,
      twoLevel := header.isTwoLevel, libraries }
  let symbols ← buildSymbols targets commands
  return {
    header, commands, skipped := walk.skipped, segments := table.segments, places := table.places,
    libraries, symbols := symbols.toArray, names := exposedNames symbols,
    indirectSymbols := (indirectTable commands).toArray }

/-- The image in a file, or why there is none. -/
def parse (image : ByteArray) (options : Options := {}) : Except Error Image :=
  (build options image).result

end Image

end MachImage
