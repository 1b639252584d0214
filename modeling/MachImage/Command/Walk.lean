import MachImage.Command.Read
import MachImage.Event

/-!
# Walking the load commands

Load commands follow one another without gaps: each says how long it is, and
the next one starts where it ends.  A command of an unknown kind is passed
over; one of a known kind that is not decoded ends the walk.

A walk keeps what it met before a failure, so that walks of `n` and of `m`
commands compose to a walk of `n + m`.  A command that was decoded is published
when the walk has passed it.
-/

namespace MachImage

/-- A command met on a walk. -/
inductive Entry where
  | decoded (c : Command)
  | skipped (c : SkippedCommand)
  deriving DecidableEq, Repr

namespace Entry

/-- The command of an entry that was decoded. -/
def command? : Entry → Option Command
  | decoded c => some c
  | skipped _ => none

/-- The command of an entry that was passed over. -/
def skipped? : Entry → Option SkippedCommand
  | decoded _ => none
  | skipped c => some c

/-- The events of an entry: a command that was decoded is published, and nothing else. -/
def events : Entry → List Event
  | decoded c => [.commandDecoded c]
  | skipped _ => []

/-- Where an entry starts. -/
def offset : Entry → Nat
  | decoded c => c.header.offset
  | skipped c => c.offset

/-- The declared length of an entry. -/
def length : Entry → UInt32
  | decoded c => c.header.length
  | skipped c => c.length

/-- The identifier of an entry as it is stored. -/
def raw : Entry → UInt32
  | decoded c => Coded.code c.id
  | skipped c => c.raw

/-- The rest of a command of a known kind, once its header has been read. -/
def readKnown (options : Options) (h : CommandHeader) : Reader Entry := do
  let shape ← Reader.demand h.id.shape? (.unsupportedCommand h.id h.offset)
  Reader.note (.commandFound h.id h.offset h.length)
  Reader.seek h.offset
  let body ← Command.readBody options h shape
  Reader.seek h.endOffset
  return .decoded { header := h, body }

/-- The rest of a command of an unknown kind, once its header has been read. -/
def readUnknown (c : SkippedCommand) : Reader Entry := do
  Reader.note (.unknownCommand c.raw c.offset c.length)
  Reader.seek (c.offset + c.length.toNat)
  return .skipped c

/-- The command at the cursor; the cursor is left where the command ends. -/
def read (options : Options) : Reader Entry := do
  let offset ← Reader.position
  let (raw, length, _) ← Reader.record .commandHeader
  if length.toNat < Record.commandHeader.size then
    Reader.fail (.commandTooSmall offset length)
  else
    match (Coded.ofCode? raw : Option CommandId) with
    | some id => readKnown options { id, length, offset }
    | none => readUnknown { raw, length, offset }

end Entry

/-- What was met on a walk. -/
structure Walk where
  /-- The commands before the failure, or all of them. -/
  entries : List Entry
  /-- Why the walk ended early. -/
  failure : Option Error
  /-- The cursor afterwards. -/
  cursor : Nat
  events : List Event
  notes : List Note

namespace Walk

/-- The walk over `count` commands from the cursor on. -/
def run (options : Options) (image : ByteArray) : (count cursor : Nat) → Walk
  | 0, cursor => ⟨[], none, cursor, [], []⟩
  | count + 1, cursor =>
    match Entry.read options image cursor with
    | ⟨.error e, cursor, notes⟩ => ⟨[], some e, cursor, [], notes⟩
    | ⟨.ok entry, cursor, notes⟩ =>
      let rest := run options image count cursor
      ⟨entry :: rest.entries, rest.failure, rest.cursor, entry.events ++ rest.events,
        notes ++ rest.notes⟩

/-- The commands that were decoded. -/
def commands (w : Walk) : List Command := w.entries.filterMap Entry.command?

/-- The commands that were passed over. -/
def skipped (w : Walk) : List SkippedCommand := w.entries.filterMap Entry.skipped?

/-- The note that ends a walk without a failure, which started at `start`. -/
def summary (w : Walk) (start : Nat) : List Note :=
  match w.failure with
  | none => [.commandsRead w.entries.length w.skipped.length (w.cursor - start)]
  | some _ => []

end Walk

end MachImage
