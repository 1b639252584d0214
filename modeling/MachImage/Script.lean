import MachImage.Header.Read

/-!
# Scripts of reads

A script is a list of steps that drive one cursor.  A step that fails does
not stop the script.  Steps may be nested: the steps of a checkpoint move the
cursor, which is then put back, and those of a fork move a cursor of their
own.  Running a script gives for each step its reply and the cursor after it.
-/

namespace MachImage

/-- A step of a script. -/
inductive Step where
  | info
  | seek (target : Nat)
  | skip (n : Nat)
  | validate
  | peek (n : Nat)
  | bytes (n : Nat)
  | u8
  | u16
  | u32
  | words (n : Nat)
  | fixedName (n : Nat)
  | terminatedName
  | unsignedLeb
  | signedLeb
  | header
  | record (r : Record)
  /-- Steps after which the cursor is put back. -/
  | checkpoint (steps : List Step)
  /-- Steps after which the cursor is put back, with a look at the next `n` bytes before that. -/
  | observedCheckpoint (steps : List Step) (n : Nat)
  /-- Steps with a cursor of their own. -/
  | fork (steps : List Step)

instance : Inhabited Step := ⟨.info⟩

/-- What the place of a cursor looks like. -/
structure Sight where
  cursor : Nat
  remaining : Nat
  /-- Whether every byte is before the cursor. -/
  atEnd : Bool
  /-- The bytes ahead, if there were enough. -/
  ahead : Option (List UInt8)

/-- The reply to a step. -/
inductive Reply where
  | failed (e : Error)
  | info (size remaining : Nat)
  | done
  | bytes (bs : List UInt8)
  | number (n : Nat)
  | words (ws : List UInt32)
  | text (s : String)
  | unsigned (v : UInt64)
  | signed (v : Int64)
  | header (h : Header)
  | record (r : Record) (v : r.Values)
  | checkpoint (saved : Nat) (steps : List (Reply × Nat))
  | observedCheckpoint (saved : Nat) (steps : List (Reply × Nat)) (sight : Sight)
  | fork (steps : List (Reply × Nat))

namespace Script

/-- The reply to a reader, and the cursor after it. -/
def reply {α : Type} (r : Reader α) (f : α → Reply) (image : ByteArray) (pos : Nat) : Reply × Nat :=
  let outcome := r image pos
  match outcome.result with
  | .ok a => (f a, outcome.cursor)
  | .error e => (.failed e, outcome.cursor)

/-- The cursor after a script: that after its last step. -/
def finalCursor (start : Nat) (steps : List (Reply × Nat)) : Nat :=
  (steps.getLast?.map Prod.snd).getD start

/-- The place of a cursor, with the next `n` bytes. -/
def look (image : ByteArray) (pos n : Nat) : Sight :=
  { cursor := pos, remaining := image.size - pos, atEnd := image.size ≤ pos,
    ahead := (Reader.peek n image pos).result.toOption }

mutual

/-- One step from a cursor on: its reply and the cursor after it. -/
def runStep (image : ByteArray) (pos : Nat) : Step → Reply × Nat
  | .info => (.info image.size (image.size - pos), pos)
  | .seek target => reply (Reader.seek target) (fun _ => .done) image pos
  | .skip n => reply (Reader.skip n) (fun _ => .done) image pos
  | .validate => reply Header.validate (fun _ => .done) image pos
  | .peek n => reply (Reader.peek n) .bytes image pos
  | .bytes n => reply (Reader.bytes n) .bytes image pos
  | .u8 => reply Reader.u8 (fun v => .number v.toNat) image pos
  | .u16 => reply Reader.u16 (fun v => .number v.toNat) image pos
  | .u32 => reply Reader.u32 (fun v => .number v.toNat) image pos
  | .words n => reply (Reader.words n) .words image pos
  | .fixedName n => reply (Reader.fixedName n) .text image pos
  | .terminatedName => reply Reader.terminatedName .text image pos
  | .unsignedLeb => reply Reader.unsignedLeb .unsigned image pos
  | .signedLeb => reply Reader.signedLeb .signed image pos
  | .header => reply Header.read .header image pos
  | .record r => reply (Reader.record r) (.record r) image pos
  | .checkpoint steps => (.checkpoint pos (run image pos steps), pos)
  | .observedCheckpoint steps n =>
    let inner := run image pos steps
    (.observedCheckpoint pos inner (look image (finalCursor pos inner) n), pos)
  | .fork steps => (.fork (run image pos steps), pos)

/-- A script from a cursor on: for each step its reply and the cursor after it. -/
def run (image : ByteArray) (pos : Nat) : List Step → List (Reply × Nat)
  | [] => []
  | step :: steps =>
    let outcome := runStep image pos step
    outcome :: run image outcome.2 steps

end

end Script

end MachImage
