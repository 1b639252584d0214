import MachImage.BindStream.Opcode
import MachImage.Command.Id
import MachImage.Header.Basic

/-!
# Notes

While an image is read, remarks on what was found are noted down in order.
A note has a level of severity; a reader of the notes chooses the least
severe level to be shown.
-/

namespace MachImage

/-- How severe a note is. -/
inductive Level where
  | warn | info | debug | trace
  deriving DecidableEq, Repr

namespace Level

/-- The name of a level. -/
def name : Level → String
  | warn => "WARN"
  | info => "INFO"
  | debug => "DEBUG"
  | trace => "TRACE"

/-- The place of a level, the most severe first. -/
def rank : Level → Nat
  | warn => 0
  | info => 1
  | debug => 2
  | trace => 3

/-- The level of a name. -/
def ofName? (s : String) : Option Level :=
  [warn, info, debug, trace].find? fun l => l.name = s

end Level

/-- A remark on what was found in an image. -/
inductive Note where
  | headerRead (header : Header)
  | commandFound (id : CommandId) (offset : Nat) (length : UInt32)
  | unknownCommand (raw : UInt32) (offset : Nat) (length : UInt32)
  | commandsRead (total skipped bytes : Nat)
  | symbolsRead (count : Nat) (nameBytes : UInt32)
  | nameBeyondTable (offset nameOffset tableSize : Nat)
  | instructionFound (offset : Nat) (opcode : BindStream.Opcode) (immediate : UInt8)
  | bindingsRead (count bytes : Nat)
  | bindTablesRead (bindings weak lazy : Nat)
  | segmentsBuilt (segments sections : Nat)
  | librariesListed (count : Nat)
  | sectionIgnored (symbol : String) (index : UInt8) (count : Nat)
  | symbolsBuilt (count exposed : Nat)
  deriving DecidableEq, Repr

namespace Note

/-- How severe a note is. -/
def level : Note → Level
  | unknownCommand .. | nameBeyondTable .. | sectionIgnored .. => .warn
  | commandsRead .. | bindingsRead .. | bindTablesRead .. | segmentsBuilt .. | librariesListed ..
  | symbolsBuilt .. => .debug
  | headerRead .. | commandFound .. | symbolsRead .. | instructionFound .. => .trace

/-- A note in words. -/
def text : Note → String
  | headerRead header => header.text
  | commandFound id offset length =>
    Coded.name id ++ " at " ++ Hex.numeral offset ++ " (" ++ toString length.toNat ++ " bytes)"
  | unknownCommand raw offset length =>
    "Unknown load command " ++ Hex.numeral raw.toNat ++ " (" ++ toString length.toNat ++
      " bytes) at " ++ Hex.numeral offset ++ ", skipping"
  | commandsRead total skipped bytes =>
    "Parsed " ++ toString total ++ " load commands (" ++ toString skipped ++ " skipped, " ++
      toString bytes ++ " bytes)"
  | symbolsRead count nameBytes =>
    "  " ++ toString count ++ " symbols, " ++ toString nameBytes.toNat ++ " string bytes"
  | nameBeyondTable offset nameOffset tableSize =>
    "Symbol at " ++ Hex.numeral offset ++ " has string index " ++ toString nameOffset ++
      " beyond string table (" ++ toString tableSize ++ " bytes)"
  | instructionFound offset opcode immediate =>
    "bind " ++ Hex.numeralPadded 4 offset ++ ": " ++ Coded.name opcode ++ " imm=" ++
      toString immediate.toNat
  | bindingsRead count bytes =>
    "Decoded " ++ toString count ++ " bind records from " ++ toString bytes ++ " opcode bytes"
  | bindTablesRead bindings weak lazy =>
    "Dyld info: " ++ toString bindings ++ " bind, " ++ toString weak ++ " weak bind, " ++
      toString lazy ++ " lazy bind records"
  | segmentsBuilt segments sections =>
    "Materialized " ++ toString segments ++ " segments, " ++ toString sections ++ " sections"
  | librariesListed count => "Two-level namespace: " ++ toString count ++ " dylibs"
  | sectionIgnored symbol index count =>
    "Symbol '" ++ symbol ++ "' references section " ++ toString index.toNat ++ " of " ++
      toString count ++ ", ignoring"
  | symbolsBuilt count exposed =>
    "Symbol table: " ++ toString count ++ " entries, " ++ toString exposed ++ " exposed"

/-- A note behind the name of its level. -/
def line (n : Note) : String := n.level.name ++ " " ++ n.text

/-- The notes that are at least as severe as a level. -/
def select (least : Level) (notes : List Note) : List Note :=
  notes.filter fun n => n.level.rank ≤ least.rank

end Note

end MachImage
