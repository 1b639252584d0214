import MachImage.Proofs.Checked.Command
import MachImage.Proofs.Command.Tiling

/-!
# Walking the load commands without a stop

The place where a command ends is a sum of 64 bits, and the count of the bytes
that were walked over is a difference.  A walk starts every command inside the
image, since the command before it ended there, so that the sum exists
(`follows_entry`, `walk_eq_some`).  A walk only goes forward, so that the
difference does (`summary_eq_some`).
-/

namespace MachImage.Checked

open CheckedReader (value plain)

/-! ## One command -/

/-- The rest of a command of a known kind that ends at `stop`. -/
def readKnown (options : Options) (h : CommandHeader) (stop : Nat) : CheckedReader Entry := do
  let shape ← plain (Reader.demand h.id.shape? (.unsupportedCommand h.id h.offset))
  plain (Reader.note (.commandFound h.id h.offset h.length))
  plain (Reader.seek h.offset)
  let body ← readBody options h shape
  plain (Reader.seek stop)
  return .decoded { header := h, body }

/-- The rest of a command of an unknown kind that ends at `stop`. -/
def readUnknown (c : SkippedCommand) (stop : Nat) : CheckedReader Entry := do
  plain (Reader.note (.unknownCommand c.raw c.offset c.length))
  plain (Reader.seek stop)
  return .skipped c

/-- The command at the cursor. -/
def entry (options : Options) : CheckedReader Entry := do
  let offset ← plain Reader.position
  let (raw, length, _) ← CheckedReader.record .commandHeader
  if length.toNat < Record.commandHeader.size then
    plain (Reader.fail (.commandTooSmall offset length))
  else
    let stop ← value (sum UInt64.size offset length.toNat)
    match (Coded.ofCode? raw : Option CommandId) with
    | some id => readKnown options { id, length, offset } stop
    | none => readUnknown { raw, length, offset } stop

section Entry

variable {options : Options} {image : ByteArray} {pos : Nat}
  (hsize : image.size < 68 * UInt32.size) (hpos : pos ≤ image.size)

include hsize hpos

theorem follows_readKnown {h : CommandHeader} (hoffset : h.offset ≤ image.size) :
    (readKnown options h h.endOffset).Follows (Entry.readKnown options h) image pos := by
  refine CheckedReader.follows_demand_bind hpos fun shape _ => ?_
  refine CheckedReader.follows_note_bind hpos ?_
  refine CheckedReader.follows_seek_bind hpos fun _ => ?_
  refine (follows_readBody hsize hoffset shape).bind fun body cursor _ hle => ?_
  exact CheckedReader.follows_seek_bind hle fun hend => CheckedReader.follows_pure hend _

omit hsize in
theorem follows_readUnknown {c : SkippedCommand} :
    (readUnknown c (c.offset + c.length.toNat)).Follows (Entry.readUnknown c) image pos := by
  refine CheckedReader.follows_note_bind hpos ?_
  exact CheckedReader.follows_seek_bind hpos fun hend => CheckedReader.follows_pure hend _

/-- A command that starts inside the image is read without a stop. -/
theorem follows_entry : (entry options).Follows (Entry.read options) image pos := by
  refine CheckedReader.follows_position_bind hpos ?_
  refine (CheckedReader.follows_record hsize hpos _).bind fun v cursor _ hle => ?_
  obtain ⟨raw, length, -⟩ := v
  refine CheckedReader.follows_unless hle fun _ => ?_
  have hstop : pos + length.toNat < UInt64.size := by
    have hlength := length.toNat_lt
    have hlimit : 68 * UInt32.size + 2 ^ 32 < UInt64.size := by decide
    omega
  refine CheckedReader.follows_value_bind (sum_eq_some hstop) ?_
  cases (Coded.ofCode? raw : Option CommandId) with
  | some id => exact follows_readKnown hsize hle (h := ⟨id, length, pos⟩) hpos
  | none => exact follows_readUnknown hle

end Entry

/-! ## Walks -/

/-- The walk over `count` commands from the cursor on. -/
def walk (options : Options) (image : ByteArray) : (count cursor : Nat) → Option Walk
  | 0, cursor => some ⟨[], none, cursor, [], []⟩
  | count + 1, cursor =>
    match entry options image cursor with
    | none => none
    | some ⟨.error e, cursor, notes⟩ => some ⟨[], some e, cursor, [], notes⟩
    | some ⟨.ok entry, cursor, notes⟩ =>
      (walk options image count cursor).map fun rest =>
        ⟨entry :: rest.entries, rest.failure, rest.cursor, entry.events ++ rest.events,
          notes ++ rest.notes⟩

/-- The note that ends a walk without a failure. -/
def summary (w : Walk) (start : Nat) : Option (List Note) :=
  match w.failure with
  | none => do
    let total ← sum UInt64.size w.commands.length w.skipped.length
    let consumed ← difference w.cursor start
    return [.commandsRead total w.skipped.length consumed]
  | some _ => some []

section Walk

variable {options : Options} {image : ByteArray} {count start : Nat}

/-- **A walk does not stop**, as every command starts inside the image. -/
theorem walk_eq_some (hsize : image.size < 68 * UInt32.size) (hstart : start ≤ image.size) :
    walk options image count start = some (Walk.run options image count start) := by
  induction count generalizing start with
  | zero => rfl
  | succ count ih =>
    obtain ⟨hrun, hle⟩ : (entry options).Follows (Entry.read options) image start :=
      follows_entry hsize hstart
    rw [walk, hrun, Walk.run]
    rcases hread : Entry.read options image start with ⟨e | first, cursor, notes⟩
    · rfl
    · rw [hread] at hle
      dsimp only
      rw [ih hle]
      rfl

theorem summary_eq_some (hcount : count < UInt64.size) :
    summary (Walk.run options image count start) start =
      some ((Walk.run options image count start).summary start) := by
  unfold summary Walk.summary
  cases hfailure : (Walk.run options image count start).failure with
  | some e => rfl
  | none =>
    have htotal := (Walk.run options image count start).length_commands_add_length_skipped
    have hlength := Walk.length_entries hfailure
    have hforward := (Walk.tiles_entries hfailure).le_stop fun e he =>
      (Walk.entryAt_of_mem he).le_length
    dsimp only
    rw [sum_eq_some (by omega), difference_eq_some (by omega), htotal]
    rfl

end Walk

end MachImage.Checked
