import MachImage.Proofs.Checked.Machine
import MachImage.Proofs.Leb128
import MachImage.Proofs.Reader

/-!
# Reading without a stop

A `CheckedReader` is a reader whose operations can stop the program.  It reads
bytes by cutting them out of the image and moves its cursor by sums of 64 bits.

`g.Follows r image pos` says that such a reader, started at `pos`, does not stop
and has the outcome of the reader `r`, which has no such operations, with the
cursor still inside the image.  That the cursor stays there is what keeps the
next read from stopping, so it is carried along.  There is one lemma for each way
of making a reader, and that of a composed reader is put together along its
definition: `Follows.bind` for two in sequence, `follows_bytes` for a read of some
bytes, `follows_times` for a table.
-/

namespace MachImage

open Checked

/-- A reader whose operations can stop the program. -/
def CheckedReader (α : Type) : Type := ByteArray → Nat → Option (Outcome α)

/-- Some bytes are what an array of their own holds. -/
theorem Reader.bytes_bind {α : Type} (n : Nat) (f : List UInt8 → Reader α) :
    Reader.bytes n >>= f = Reader.slice n >>= fun part => f part.data.toList := by
  funext image pos
  simp only [Reader.bytes, Reader.slice, Reader.take, Bind.bind, Reader.bind]
  by_cases hshort : image.size < pos + n
  · simp only [if_pos hshort]
  · simp only [if_neg hshort]
    rfl

namespace CheckedReader

variable {α β : Type}

/-- Nothing is read. -/
def pure (a : α) : CheckedReader α := fun _ pos => some ⟨.ok a, pos, []⟩

/-- One reader, then another that depends on the value of the first; a stop of either stops both. -/
def bind (g : CheckedReader α) (k : α → CheckedReader β) : CheckedReader β := fun image pos =>
  match g image pos with
  | none => none
  | some ⟨.error e, cursor, notes⟩ => some ⟨.error e, cursor, notes⟩
  | some ⟨.ok a, cursor, notes⟩ =>
    (k a image cursor).map fun next => { next with notes := notes ++ next.notes }

instance : Monad CheckedReader where
  pure := pure
  bind := bind

/-- A value that is computed apart from the image. -/
def value (a : Option α) : CheckedReader α := fun _ pos => a.map fun a => ⟨.ok a, pos, []⟩

/-- A reader none of whose operations can stop. -/
def plain (r : Reader α) : CheckedReader α := fun image pos => some (r image pos)

/-- Runs a reader and puts the cursor back. -/
def within (g : CheckedReader α) : CheckedReader α := fun image pos =>
  (g image pos).map fun outcome => { outcome with cursor := pos }

/-- Runs a reader `n` times and collects the values. -/
def times : (n : Nat) → CheckedReader α → CheckedReader (List α)
  | 0, _ => pure []
  | n + 1, g => bind g fun a => bind (times n g) fun rest => pure (a :: rest)

/-! ## Reads -/

/-- The next `n` bytes; the cursor stays.  Whether their end can be written down in 64 bits is asked
before it is computed. -/
def peek (n : Nat) : CheckedReader ByteArray := fun image pos =>
  match sum UInt64.size pos n with
  | none => some ⟨.error (.bufferTooSmall lastPosition image.size), pos, []⟩
  | some stop =>
    if image.size < stop then some ⟨.error (.bufferTooSmall stop image.size), pos, []⟩
    else (Checked.slice image pos stop).map fun part => ⟨.ok part, pos, []⟩

/-- Moves the cursor by `n` bytes. -/
def advance (n : Nat) : CheckedReader Unit := fun _ pos =>
  (sum UInt64.size pos n).map fun pos => ⟨.ok (), pos, []⟩

/-- The next `n` bytes as an array of their own. -/
def slice (n : Nat) : CheckedReader ByteArray := do
  let part ← peek n
  advance n
  return part

/-- The next `n` bytes. -/
def bytes (n : Nat) : CheckedReader (List UInt8) := do
  let part ← slice n
  return part.data.toList

/-- What is made of the next `n` bytes. -/
def field (n : Nat) (make : List UInt8 → Option α) : CheckedReader α := do
  let bs ← bytes n
  value (make bs)

/-- The next byte. -/
def u8 : CheckedReader UInt8 := field 1 (·[0]?)

/-- The next 16-bit number. -/
def u16 : CheckedReader UInt16 := field 2 LittleEndian.u16?

/-- The next 32-bit number. -/
def u32 : CheckedReader UInt32 := field 4 LittleEndian.u32?

/-- Consecutive 32-bit numbers.  Whether the count of their bytes can be written down in 64 bits is
asked before it is computed. -/
def words (n : Nat) : CheckedReader (List UInt32) :=
  match product UInt64.size 4 n with
  | none => fun image pos => some ⟨.error (.bufferTooSmall lastPosition image.size), pos, []⟩
  | some length => field length Checked.words

/-- A name in a field of `n` bytes. -/
def fixedName (n : Nat) : CheckedReader String := field n Checked.name

/-- The record at the cursor, taken from exactly as many bytes as it has. -/
def record (r : Record) : CheckedReader r.Values :=
  field r.size fun bs => if bs.length = r.size then some (r.decode bs) else none

/-- The bytes from the cursor to the end; the cursor stays. -/
def rest : CheckedReader (List UInt8) := fun image pos =>
  (Checked.slice image (min pos image.size) image.size).map fun part =>
    ⟨.ok part.data.toList, pos, []⟩

/-- What is found at the front of the bytes from the cursor on, with the count of bytes it takes. -/
def scan (find : List UInt8 → Option (Option (α × Nat))) (e : Nat → Error) : CheckedReader α := do
  let offset ← plain Reader.position
  let bs ← rest
  match ← value (find bs) with
  | none => plain (Reader.fail (e offset))
  | some (a, used) =>
    advance used
    return a

/-- A name ended by a zero byte. -/
def terminatedName : CheckedReader String :=
  scan Checked.terminated (.malformed · .unterminatedName)

/-- An unsigned LEB128 number. -/
def unsignedLeb : CheckedReader UInt64 := scan Checked.unsigned .invalidUnsignedLeb

/-- A signed LEB128 number. -/
def signedLeb : CheckedReader Int64 := scan Checked.signed .invalidSignedLeb

/-! ## Following a reader -/

/-- A reader does not stop and has the outcome of another one, with a cursor inside the image. -/
structure Follows (g : CheckedReader α) (r : Reader α) (image : ByteArray) (pos : Nat) : Prop where
  eq_some : g image pos = some (r image pos)
  cursor_le : (r image pos).cursor ≤ image.size

variable {g : CheckedReader α} {r : Reader α} {k : α → CheckedReader β} {f : α → Reader β}
  {image : ByteArray} {pos : Nat}

theorem follows_plain (h : (r image pos).cursor ≤ image.size) :
    (plain r).Follows r image pos := ⟨rfl, h⟩

theorem bind_of_ok {g : CheckedReader α} {a : α} {cursor : Nat} {notes : List Note}
    (h : g image pos = some ⟨.ok a, cursor, notes⟩) :
    (g >>= k) image pos =
      (k a image cursor).map fun next => { next with notes := notes ++ next.notes } := by
  show CheckedReader.bind g k image pos = _
  rw [CheckedReader.bind, h]

/-- What follows a reader that makes no notes has the outcome of the whole. -/
theorem bind_of_silent {g : CheckedReader α} {a : α} {cursor : Nat}
    (h : g image pos = some ⟨.ok a, cursor, []⟩) : (g >>= k) image pos = k a image cursor := by
  rw [bind_of_ok h]
  simp only [List.nil_append]
  exact Option.map_id'

theorem bind_of_error {g : CheckedReader α} {e : Error} {cursor : Nat} {notes : List Note}
    (h : g image pos = some ⟨.error e, cursor, notes⟩) :
    (g >>= k) image pos = some ⟨.error e, cursor, notes⟩ := by
  show CheckedReader.bind g k image pos = _
  rw [CheckedReader.bind, h]

/-- What is computed from the value of a reader. -/
theorem map_eq_some {g : CheckedReader α} {result : Except Error α} {cursor : Nat}
    {notes : List Note} (h : g image pos = some ⟨result, cursor, notes⟩) (f : α → β) :
    (g >>= fun a => Pure.pure (f a)) image pos = some ⟨result.map f, cursor, notes⟩ := by
  cases result with
  | error e => exact bind_of_error h
  | ok a =>
    have hnotes : notes ++ [] = notes := List.append_nil notes
    rw [bind_of_ok h]
    show some (Outcome.mk (.ok (f a)) cursor (notes ++ [])) = _
    rw [hnotes]
    rfl

/-- Two readers in sequence: the second is started only where the first can lead. -/
theorem Follows.bind (hg : g.Follows r image pos)
    (hk : ∀ a cursor, r.Yields image pos a cursor → cursor ≤ image.size →
      (k a).Follows (f a) image cursor) : (g >>= k).Follows (r >>= f) image pos := by
  obtain ⟨hrun, hcursor⟩ := hg
  rcases houtcome : r image pos with ⟨e | a, cursor, notes⟩
  · rw [houtcome] at hrun hcursor
    constructor
    · rw [bind_of_error hrun, Reader.bind_of_error houtcome]
    · rw [Reader.bind_of_error houtcome]
      exact hcursor
  · rw [houtcome] at hrun hcursor
    have hyields : r.Yields image pos a cursor := by
      rw [Reader.Yields, houtcome]
      exact ⟨rfl, rfl⟩
    obtain ⟨hnext, hle⟩ := hk a cursor hyields hcursor
    constructor
    · rw [bind_of_ok hrun, Reader.bind_of_ok houtcome, hnext, Option.map_some]
    · rw [Reader.bind_of_ok houtcome]
      exact hle

@[simp] theorem value_some_bind (a : α) (k : α → CheckedReader β) : value (some a) >>= k = k a := by
  funext image pos
  exact bind_of_silent rfl

/-- An operation that does not stop leaves the rest to its value. -/
theorem follows_value_bind {o : Option α} {a : α} {r : Reader β} (h : o = some a)
    (hk : (k a).Follows r image pos) : (value o >>= k).Follows r image pos := by
  rw [h, value_some_bind]
  exact hk

/-! ## Control -/

section Control

variable (hpos : pos ≤ image.size)

include hpos

theorem follows_pure (a : α) : (Pure.pure a : CheckedReader α).Follows (Pure.pure a) image pos :=
  ⟨rfl, hpos⟩

theorem follows_fail (e : Error) :
    (plain (Reader.fail e) : CheckedReader α).Follows (Reader.fail e) image pos :=
  follows_plain hpos

omit hpos in
/-- What is computed from the value of a reader. -/
theorem Follows.map (hg : g.Follows r image pos) (f : α → β) :
    (g >>= fun a => Pure.pure (f a)).Follows (r >>= fun a => Pure.pure (f a)) image pos :=
  hg.bind fun _ _ _ hle => follows_pure hle _

/-- A reader that runs unless a check fails. -/
theorem follows_unless {c : Prop} [Decidable c] {e : Error} (h : ¬ c → g.Follows r image pos) :
    (if c then plain (Reader.fail e) else g).Follows (if c then Reader.fail e else r) image pos := by
  by_cases hc : c
  · rw [if_pos hc, if_pos hc]
    exact follows_fail hpos e
  · rw [if_neg hc, if_neg hc]
    exact h hc

theorem follows_note_bind {n : Note} {k : Unit → CheckedReader β} {f : Unit → Reader β}
    (h : (k ()).Follows (f ()) image pos) :
    (plain (Reader.note n) >>= k).Follows (Reader.note n >>= f) image pos := by
  refine (follows_plain hpos).bind fun _ cursor hyields _ => ?_
  rw [Reader.yields_note.1 hyields]
  exact h

theorem follows_position_bind {k : Nat → CheckedReader β} {f : Nat → Reader β}
    (h : (k pos).Follows (f pos) image pos) :
    (plain Reader.position >>= k).Follows (Reader.position >>= f) image pos := by
  refine (follows_plain hpos).bind fun start cursor hyields _ => ?_
  obtain ⟨rfl, rfl⟩ := Reader.yields_position.1 hyields
  exact h

theorem follows_demand_bind {o : Option α} {e : Error}
    (h : ∀ a, o = some a → (k a).Follows (f a) image pos) :
    (plain (Reader.demand o e) >>= k).Follows (Reader.demand o e >>= f) image pos := by
  have hcursor : (Reader.demand o e image pos).cursor ≤ image.size := by
    cases o <;> exact hpos
  refine (follows_plain hcursor).bind fun a cursor hyields _ => ?_
  obtain ⟨hsome, rfl⟩ := Reader.yields_demand.1 hyields
  exact h a hsome

theorem follows_seek_bind {target : Nat} {k : Unit → CheckedReader β} {f : Unit → Reader β}
    (h : target ≤ image.size → (k ()).Follows (f ()) image target) :
    (plain (Reader.seek target) >>= k).Follows (Reader.seek target >>= f) image pos := by
  have hcursor : (Reader.seek target image pos).cursor ≤ image.size := by
    unfold Reader.seek
    split
    · exact hpos
    · exact Nat.le_of_not_lt ‹_›
  refine (follows_plain hcursor).bind fun _ cursor hyields _ => ?_
  obtain ⟨hle, rfl⟩ := Reader.yields_seek.1 hyields
  exact h hle

theorem Follows.within (hg : g.Follows r image pos) :
    (CheckedReader.within g).Follows (Reader.within r) image pos := by
  constructor
  · rw [CheckedReader.within, hg.eq_some]
    rfl
  · exact hpos

end Control

/-- A table whose entries can be read from anywhere. -/
theorem follows_times {n : Nat} (hpos : pos ≤ image.size)
    (hg : ∀ p ≤ image.size, g.Follows r image p) :
    (times n g).Follows (Reader.times n r) image pos := by
  induction n generalizing pos with
  | zero => exact follows_pure hpos []
  | succ n ih =>
    refine (hg pos hpos).bind fun a cursor _ hle => ?_
    exact (ih hle).map (a :: ·)

/-! ## Bytes -/

theorem peek_of_lt {n : Nat} (h : image.size < pos + n) :
    peek n image pos =
      some ⟨.error (.bufferTooSmall (min (pos + n) lastPosition) image.size), pos, []⟩ := by
  have hlast : UInt64.size = lastPosition + 1 := rfl
  unfold peek
  by_cases hfits : pos + n < UInt64.size
  · rw [sum_eq_some hfits, Nat.min_eq_left (by omega)]
    exact if_pos h
  · rw [sum_eq_none (Nat.le_of_not_lt hfits), Nat.min_eq_right (by omega)]

section Bytes

variable (hsize : image.size < 68 * UInt32.size) (hpos : pos ≤ image.size)

include hsize

theorem sum_position {n : Nat} (h : pos + n ≤ image.size) :
    sum UInt64.size pos n = some (pos + n) :=
  sum_eq_some (Nat.lt_of_le_of_lt h (Nat.lt_trans hsize (by decide)))

theorem peek_of_le {n : Nat} (h : pos + n ≤ image.size) :
    peek n image pos = some ⟨.ok (image.extract pos (pos + n)), pos, []⟩ := by
  unfold peek
  rw [sum_position hsize h]
  dsimp only
  rw [if_neg (Nat.not_lt.2 h), slice_eq_some (Nat.le_add_right pos n) h, Option.map_some]

include hpos

/-- The bytes that a cursor passes over lie in the image, so that the cursor stays in it. -/
theorem follows_slice (n : Nat) : (slice n).Follows (Reader.slice n) image pos := by
  by_cases hshort : image.size < pos + n
  · have htake : Reader.slice n image pos =
        ⟨.error (.bufferTooSmall (min (pos + n) lastPosition) image.size), pos, []⟩ := if_pos hshort
    constructor
    · rw [slice, bind_of_error (peek_of_lt hshort), htake]
    · rw [htake]
      exact hpos
  · have hle : pos + n ≤ image.size := Nat.le_of_not_lt hshort
    have htake : Reader.slice n image pos = ⟨.ok (image.extract pos (pos + n)), pos + n, []⟩ :=
      if_neg hshort
    have hadvance : advance n image pos = some ⟨.ok (), pos + n, []⟩ := by
      rw [advance, sum_position hsize hle, Option.map_some]
    constructor
    · rw [slice, bind_of_silent (peek_of_le hsize hle), bind_of_silent hadvance, htake]
      rfl
    · rw [htake]
      exact hle

theorem follows_bytes (n : Nat) : (bytes n).Follows (Reader.bytes n) image pos := by
  rw [← bind_pure (Reader.bytes n), Reader.bytes_bind]
  exact (follows_slice hsize hpos n).map fun part : ByteArray => part.data.toList

/-- What is made of some bytes, if it can be made of so many. -/
theorem follows_field {n : Nat} {make : List UInt8 → Option α} {f : List UInt8 → α}
    (h : ∀ bs, bs.length = n → make bs = some (f bs)) :
    (field n make).Follows (Reader.bytes n >>= fun bs => Pure.pure (f bs)) image pos := by
  refine (follows_bytes hsize hpos n).bind fun bs cursor hyields hle => ?_
  obtain ⟨hfits, rfl, rfl⟩ := Reader.yields_bytes.1 hyields
  rw [h _ (by rw [length_window]; omega)]
  exact follows_pure hle _

theorem follows_u8 : u8.Follows Reader.u8 image pos := by
  refine follows_field hsize hpos fun bs hlength => ?_
  obtain ⟨b, rfl⟩ := List.length_eq_one_iff.1 hlength
  rfl

theorem follows_u16 : u16.Follows Reader.u16 image pos :=
  follows_field hsize hpos fun _ hlength => if_pos (Nat.le_of_eq hlength.symm)

theorem follows_u32 : u32.Follows Reader.u32 image pos :=
  follows_field hsize hpos fun _ hlength => if_pos (Nat.le_of_eq hlength.symm)

/-- A count of words whose bytes cannot be counted in 64 bits is refused like any other for which
there are too few bytes. -/
theorem follows_words (n : Nat) : (words n).Follows (Reader.words n) image pos := by
  have hlast : UInt64.size = lastPosition + 1 := rfl
  have himage : image.size < UInt64.size := Nat.lt_trans hsize (by decide)
  by_cases hcount : 4 * n < UInt64.size
  · rw [words, product_eq_some hcount]
    exact follows_field hsize hpos fun bs _ => words_eq_some bs
  · have hcount : UInt64.size ≤ 4 * n := Nat.le_of_not_lt hcount
    have hshort : image.size < pos + 4 * n := by omega
    have hmin : min (pos + 4 * n) lastPosition = lastPosition := Nat.min_eq_right (by omega)
    have hbytes : Reader.bytes (4 * n) image pos =
        ⟨.error (.bufferTooSmall lastPosition image.size), pos, []⟩ :=
      hmin ▸ (if_pos hshort)
    have hwords : Reader.words n image pos =
        ⟨.error (.bufferTooSmall lastPosition image.size), pos, []⟩ :=
      Reader.bind_of_error hbytes
    constructor
    · rw [words, product_eq_none hcount, hwords]
    · rw [hwords]
      exact hpos

theorem follows_fixedName (n : Nat) : (fixedName n).Follows (Reader.fixedName n) image pos :=
  follows_field hsize hpos fun bs _ => name_eq_some bs

theorem follows_record (r : Record) : (record r).Follows (Reader.record r) image pos :=
  follows_field hsize hpos fun _ hlength => if_pos hlength

omit hsize in
theorem rest_eq : rest image pos = some ⟨.ok (windowFrom image pos), pos, []⟩ := by
  have hstop : pos + (image.size - pos) = image.size := by omega
  rw [rest, Nat.min_eq_left hpos, slice_eq_some hpos (Nat.le_refl _), Option.map_some, windowFrom,
    window, hstop]

/-- What is found at the front of the bytes up to the end of the image takes no more than those. -/
theorem follows_scan {find : List UInt8 → Option (Option (α × Nat))}
    {f : List UInt8 → Option (α × Nat)} {e : Nat → Error}
    (hfind : ∀ bs, bs.length < UInt64.size → find bs = some (f bs))
    (hused : ∀ {bs a used}, f bs = some (a, used) → used ≤ bs.length) :
    (scan find e).Follows (Reader.scan f e) image pos := by
  have hposition : plain Reader.position image pos = some ⟨.ok pos, pos, []⟩ := rfl
  have hlength : (windowFrom image pos).length < UInt64.size := by
    rw [length_windowFrom]
    exact Nat.lt_of_le_of_lt (Nat.sub_le _ _) (Nat.lt_trans hsize (by decide))
  cases hfound : f (windowFrom image pos) with
  | none =>
    have hscan : Reader.scan f e image pos = ⟨.error (e pos), pos, []⟩ := by
      rw [Reader.scan, hfound]
    constructor
    · rw [scan, bind_of_silent hposition, bind_of_silent (rest_eq hpos), hfind _ hlength, hfound,
        value_some_bind, hscan]
      rfl
    · rw [hscan]
      exact hpos
  | some found =>
    obtain ⟨a, used⟩ := found
    have hle : pos + used ≤ image.size := by
      have hinside := hused hfound
      rw [length_windowFrom] at hinside
      omega
    have hadvance : advance used image pos = some ⟨.ok (), pos + used, []⟩ := by
      rw [advance, sum_position hsize hle, Option.map_some]
    have hscan : Reader.scan f e image pos = ⟨.ok a, pos + used, []⟩ := by
      rw [Reader.scan, hfound]
    constructor
    · rw [scan, bind_of_silent hposition, bind_of_silent (rest_eq hpos), hfind _ hlength, hfound,
        value_some_bind]
      dsimp only
      rw [bind_of_silent hadvance, hscan]
      rfl
    · rw [hscan]
      exact hle

theorem follows_terminatedName : terminatedName.Follows Reader.terminatedName image pos := by
  refine follows_scan hsize hpos (fun _ => terminated_eq_some) fun {bs name used} h => ?_
  obtain ⟨hzero, -, rfl⟩ := Name.terminated?_eq_some_iff.1 h
  exact hzero

theorem follows_unsignedLeb : unsignedLeb.Follows Reader.unsignedLeb image pos := by
  refine follows_scan hsize hpos (fun _ => unsigned_eq_some) fun {bs v used} h => ?_
  rw [Leb128.unsigned?_eq, Leb128.unsignedByGroups?, Option.map_eq_some_iff] at h
  obtain ⟨g, hg, hv⟩ := h
  cases hv
  exact (Leb128.groups_used hg).2

theorem follows_signedLeb : signedLeb.Follows Reader.signedLeb image pos := by
  refine follows_scan hsize hpos (fun _ => signed_eq_some) fun {bs v used} h => ?_
  rw [Leb128.signed?_eq, Leb128.signedByGroups?, Option.map_eq_some_iff] at h
  obtain ⟨g, hg, hv⟩ := h
  cases hv
  exact (Leb128.groups_used hg).2

end Bytes

end CheckedReader

end MachImage
