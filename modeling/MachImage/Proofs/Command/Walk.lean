import MachImage.Command.Walk
import MachImage.Proofs.Command.Decode

/-!
# What a walk meets

`EntryAt` says what the entry at a position is.  It describes the reader of one
entry in both directions (`Entry.yields_read`), and from that everything that a
walk meets, also one that fails (`Walk.entryAt_of_mem`).  A walk that does not
fail meets as many entries as it was asked for (`Walk.length_entries`), and
they lie one after another from its start to its cursor (`Walk.tiles_entries`).
One that fails does so at an entry behind a walk that does not
(`Walk.exists_read_error`).  What a walk publishes are the commands that it
decodes, in both cases (`Walk.events_run`).
-/

namespace MachImage

variable {options : Options} {image : ByteArray} {pos start cursor count : Nat}

/-! ## One entry -/

/-- The word after the identifier of the command at a position: how long it says it is. -/
def lengthAt (image : ByteArray) (pos : Nat) : UInt32 := word image (pos + 4)

/-- The header of the command at a position, if its kind is known. -/
def headerAt (image : ByteArray) (pos : Nat) (id : CommandId) : CommandHeader where
  id := id
  length := lengthAt image pos
  offset := pos

/-- A command of a known kind can be decoded if its kind is and it fits. -/
def CommandFits (options : Options) (image : ByteArray) (pos : Nat) : Prop :=
  ∀ id : CommandId, Coded.ofCode? (word image pos) = some id →
    ∃ shape, id.shape? = some shape ∧
      shape.Fits options image pos (lengthAt image pos).toNat

/-- What the entry at a position is.  Either way it holds its own first two words and ends inside
the image. -/
inductive EntryAt (options : Options) (image : ByteArray) (pos : Nat) : Entry → Prop where
  | skipped (hlength : 8 ≤ (lengthAt image pos).toNat)
      (hend : pos + (lengthAt image pos).toNat ≤ image.size)
      (hid : (Coded.ofCode? (word image pos) : Option CommandId) = none) :
      EntryAt options image pos (.skipped ⟨word image pos, lengthAt image pos, pos⟩)
  | decoded {id : CommandId} {shape : CommandShape} (hlength : 8 ≤ (lengthAt image pos).toNat)
      (hend : pos + (lengthAt image pos).toNat ≤ image.size)
      (hid : Coded.ofCode? (word image pos) = some id) (hshape : id.shape? = some shape)
      (hfits : shape.Fits options image pos (lengthAt image pos).toNat) :
      EntryAt options image pos
        (.decoded ⟨headerAt image pos id,
          Command.bodyAt options image (headerAt image pos id) shape⟩)

namespace EntryAt

variable {e : Entry}

theorem offset_eq (h : EntryAt options image pos e) : e.offset = pos := by
  cases h <;> rfl

theorem length_eq (h : EntryAt options image pos e) : e.length = lengthAt image pos := by
  cases h <;> rfl

/-- The identifier of an entry is its first word. -/
theorem raw_eq (h : EntryAt options image pos e) : e.raw = word image pos := by
  cases h with
  | skipped _ _ _ => rfl
  | decoded _ _ hid _ _ => exact Coded.ofCode?_eq_some_iff.1 hid

/-- An entry is passed over because its kind is unknown. -/
theorem ofCode?_raw {c : SkippedCommand} (h : EntryAt options image pos (.skipped c)) :
    (Coded.ofCode? c.raw : Option CommandId) = none := by
  cases h with
  | skipped _ _ hid => exact hid

/-- A decoded command has the shape of its kind, fits, and has the body that lies there. -/
theorem body_eq {c : Command} (h : EntryAt options image pos (.decoded c)) :
    c.header.offset = pos ∧ c.id.shape? = some c.body.shape ∧
      c.body.shape.Fits options image pos (lengthAt image pos).toNat ∧
      c.body = Command.bodyAt options image c.header c.body.shape := by
  cases h with
  | decoded _ _ _ hshape hfits =>
    dsimp only
    rw [Command.shape_bodyAt]
    exact ⟨rfl, hshape, hfits, rfl⟩

theorem le_length (h : EntryAt options image pos e) : 8 ≤ e.length.toNat := by
  cases h with
  | skipped hlength _ _ => exact hlength
  | decoded hlength _ _ _ _ => exact hlength

theorem end_le_size (h : EntryAt options image pos e) :
    pos + e.length.toNat ≤ image.size := by
  cases h with
  | skipped _ hend _ => exact hend
  | decoded _ hend _ _ _ => exact hend

end EntryAt

/-- There is an entry at a position exactly if the command there ends inside the image and can be
passed over or decoded. -/
theorem exists_entryAt_iff :
    (∃ e, EntryAt options image pos e) ↔
      8 ≤ (lengthAt image pos).toNat ∧ pos + (lengthAt image pos).toNat ≤ image.size ∧
        CommandFits options image pos := by
  constructor
  · rintro ⟨_, hentry⟩
    cases hentry with
    | skipped hlength hend hid =>
      refine ⟨hlength, hend, fun id h => ?_⟩
      rw [hid] at h
      cases h
    | decoded hlength hend hid hshape hfits =>
      refine ⟨hlength, hend, fun id h => ?_⟩
      rw [hid] at h
      cases h
      exact ⟨_, hshape, hfits⟩
  · rintro ⟨hlength, hend, hcommand⟩
    cases hid : (Coded.ofCode? (word image pos) : Option CommandId) with
    | none => exact ⟨_, .skipped hlength hend hid⟩
    | some id =>
      obtain ⟨shape, hshape, hfits⟩ := hcommand id hid
      exact ⟨_, .decoded hlength hend hid hshape hfits⟩

namespace Entry

theorem yields_readUnknown {c : SkippedCommand} {e : Entry} :
    (readUnknown c).Yields image pos e cursor ↔
      c.offset + c.length.toNat ≤ image.size ∧ e = .skipped c ∧
        cursor = c.offset + c.length.toNat := by
  rw [readUnknown, Reader.yields_note_bind, Reader.yields_seek_bind, Reader.yields_pure]

/-- A command of a known kind is read if the kind is decoded, the command fits and it ends inside
the image. -/
theorem yields_readKnown {h : CommandHeader} {e : Entry} :
    (readKnown options h).Yields image pos e cursor ↔
      h.endOffset ≤ image.size ∧
        ∃ shape, h.id.shape? = some shape ∧ shape.Fits options image h.offset h.length.toNat ∧
          e = .decoded ⟨h, Command.bodyAt options image h shape⟩ ∧ cursor = h.endOffset := by
  have hbody : ∀ {shape : CommandShape} {middle : Nat} {body : CommandBody},
      (Command.readBody options h shape).Yields image h.offset body middle →
        h.endOffset ≤ image.size →
          shape.Fits options image h.offset h.length.toNat ∧
            body = Command.bodyAt options image h shape :=
    fun hread hend => (Command.result_readBody hend).1 hread.1
  rw [readKnown, Reader.yields_bind]
  constructor
  · rintro ⟨shape, p, hdemand, hrest⟩
    obtain ⟨hshape, rfl⟩ := Reader.yields_demand.1 hdemand
    rw [Reader.yields_note_bind, Reader.yields_seek_bind, Reader.yields_bind] at hrest
    obtain ⟨-, body, middle, hread, hrest⟩ := hrest
    obtain ⟨hend, hrest⟩ := Reader.yields_seek_bind.1 hrest
    obtain ⟨hfits, rfl⟩ := hbody hread hend
    exact ⟨hend, shape, hshape, hfits, Reader.yields_pure.1 hrest⟩
  · rintro ⟨hend, shape, hshape, hfits, he, hcursor⟩
    obtain ⟨middle, hread⟩ :=
      Reader.result_eq_ok_iff.1 ((Command.result_readBody hend).2 ⟨hfits, rfl⟩)
    have hoffset : h.offset ≤ image.size := by
      unfold CommandHeader.endOffset at hend
      omega
    refine ⟨shape, pos, Reader.yields_demand.2 ⟨hshape, rfl⟩, ?_⟩
    rw [Reader.yields_note_bind, Reader.yields_seek_bind, Reader.yields_bind]
    exact ⟨hoffset, _, middle, hread,
      Reader.yields_seek_bind.2 ⟨hend, Reader.yields_pure.2 ⟨he, hcursor⟩⟩⟩

/-- **The reader of an entry reads the entry that is there**, and leaves the cursor at its end. -/
theorem yields_read {e : Entry} :
    (Entry.read options).Yields image pos e cursor ↔
      EntryAt options image pos e ∧ cursor = pos + e.length.toNat := by
  have hrest : (Entry.read options).Yields image pos e cursor ↔
      pos + 8 ≤ image.size ∧ ¬ (lengthAt image pos).toNat < 8 ∧
        ((Coded.ofCode? (word image pos) : Option CommandId).elim
          (readUnknown ⟨word image pos, lengthAt image pos, pos⟩)
          fun id => readKnown options (headerAt image pos id)).Yields image (pos + 8) e cursor := by
    refine Reader.yields_position_bind.trans ?_
    refine (Reader.yields_bind_of_iff Reader.yields_record).trans (and_congr_right fun _ => ?_)
    refine Reader.yields_unless.trans (and_congr_right fun _ => ?_)
    dsimp only [Record.layout, Record.ofCommand, Layout.readAt, FieldType.readAt_u32]
    cases (Coded.ofCode? (word image pos) : Option CommandId) with
    | none => exact Iff.rfl
    | some id => exact Iff.rfl
  rw [hrest]
  cases hid : (Coded.ofCode? (word image pos) : Option CommandId) with
  | none =>
    rw [Option.elim_none, yields_readUnknown]
    constructor
    · rintro ⟨-, hlength, hend, rfl, hcursor⟩
      exact ⟨.skipped (by omega) hend hid, hcursor⟩
    · rintro ⟨hentry, hcursor⟩
      cases hentry with
      | skipped hlength hend _ => exact ⟨by omega, by omega, hend, rfl, hcursor⟩
      | decoded _ _ hid' _ _ =>
        rw [hid] at hid'
        cases hid'
  | some id =>
    rw [Option.elim_some, yields_readKnown]
    constructor
    · rintro ⟨-, hlength, hend, shape, hshape, hfits, rfl, hcursor⟩
      exact ⟨.decoded (by omega) hend hid hshape hfits, hcursor⟩
    · rintro ⟨hentry, hcursor⟩
      cases hentry with
      | skipped _ _ hid' =>
        rw [hid] at hid'
        cases hid'
      | decoded hlength hend hid' hshape hfits =>
        rw [hid] at hid'
        cases hid'
        exact ⟨by omega, by omega, hend, _, hshape, hfits, rfl, hcursor⟩

end Entry

/-! ## Many entries -/

/-- Entries lie one after another from a position on, each starting where the one before it ends. -/
def Tiles : (start : Nat) → List Entry → (stop : Nat) → Prop
  | start, [], stop => start = stop
  | start, e :: es, stop => e.offset = start ∧ Tiles (start + e.length.toNat) es stop

namespace Tiles

variable {stop : Nat} {es : List Entry}

/-- Entries that take eight bytes each and lie one after another take eight times their count. -/
theorem le_stop (h : Tiles start es stop) (hlength : ∀ e ∈ es, 8 ≤ e.length.toNat) :
    start + 8 * es.length ≤ stop := by
  induction es generalizing start with
  | nil => exact Nat.le_of_eq h
  | cons e es ih =>
    have hrest := ih h.2 fun e he => hlength e (List.mem_cons_of_mem _ he)
    have hfirst := hlength e List.mem_cons_self
    rw [List.length_cons]
    omega

/-- No entry starts before the first. -/
theorem le_offset (h : Tiles start es stop) : ∀ e ∈ es, start ≤ e.offset := by
  induction es generalizing start with
  | nil =>
    intro e he
    cases he
  | cons e es ih =>
    rw [List.forall_mem_cons]
    refine ⟨Nat.le_of_eq h.1.symm, fun e he => ?_⟩
    exact Nat.le_trans (Nat.le_add_right _ _) (ih h.2 e he)

/-- Entries that are not empty and lie one after another are in the order of their offsets. -/
theorem pairwise_offset (h : Tiles start es stop) (hlength : ∀ e ∈ es, 8 ≤ e.length.toNat) :
    es.Pairwise fun a b => a.offset < b.offset := by
  induction es generalizing start with
  | nil => exact List.Pairwise.nil
  | cons e es ih =>
    refine List.Pairwise.cons (fun b hb => ?_)
      (ih h.2 fun e he => hlength e (List.mem_cons_of_mem _ he))
    have hfirst := hlength e List.mem_cons_self
    have hoffset := h.1
    have hle := le_offset h.2 b hb
    omega

/-- The last entry ends where the entries do, so that they end inside the image if each does. -/
theorem stop_le (h : Tiles start es stop) {size : Nat} (hstart : start ≤ size)
    (hend : ∀ e ∈ es, e.offset + e.length.toNat ≤ size) : stop ≤ size := by
  induction es generalizing start with
  | nil => exact h ▸ hstart
  | cons e es ih =>
    refine ih h.2 ?_ fun e he => hend e (List.mem_cons_of_mem _ he)
    exact h.1 ▸ hend e List.mem_cons_self

end Tiles

namespace Walk

/-- A walk fails at its first entry, or goes on after it. -/
theorem run_succ_cases (options : Options) (image : ByteArray) (count start : Nat) :
    ((run options image (count + 1) start).entries = [] ∧
        (run options image (count + 1) start).failure ≠ none ∧
        ∀ e, ¬ EntryAt options image start e) ∨
      ∃ e, EntryAt options image start e ∧
        (run options image (count + 1) start).entries =
          e :: (run options image count (start + e.length.toNat)).entries ∧
        (run options image (count + 1) start).failure =
          (run options image count (start + e.length.toNat)).failure ∧
        (run options image (count + 1) start).cursor =
          (run options image count (start + e.length.toNat)).cursor := by
  have hread : ∀ {e c}, (Entry.read options).Yields image start e c ↔ _ := Entry.yields_read
  rcases h : Entry.read options image start with ⟨error | e, c, notes⟩
  · left
    rw [run, h]
    refine ⟨rfl, by simp, fun e hentry => ?_⟩
    obtain ⟨hok, -⟩ := hread.2 ⟨hentry, rfl⟩
    rw [h] at hok
    cases hok
  · right
    obtain ⟨hentry, rfl⟩ := hread.1 ⟨congrArg Outcome.result h, congrArg Outcome.cursor h⟩
    rw [run, h]
    exact ⟨e, hentry, rfl, rfl, rfl⟩

/-- Everything that a walk meets is what lies there, whether the walk fails later or not. -/
theorem entryAt_of_mem {e : Entry} (he : e ∈ (run options image count start).entries) :
    EntryAt options image e.offset e := by
  induction count generalizing start with
  | zero => cases he
  | succ count ih =>
    obtain ⟨hnone, -⟩ | ⟨first, hentry, hentries, -⟩ := run_succ_cases options image count start
    · rw [hnone] at he
      cases he
    · rw [hentries, List.mem_cons] at he
      obtain rfl | he := he
      · exact hentry.offset_eq.symm ▸ hentry
      · exact ih he

/-- A walk that does not fail meets as many entries as it was asked for. -/
theorem length_entries (h : (run options image count start).failure = none) :
    (run options image count start).entries.length = count := by
  induction count generalizing start with
  | zero => rfl
  | succ count ih =>
    obtain ⟨-, hfailure, -⟩ | ⟨first, -, hentries, hfailure, -⟩ :=
      run_succ_cases options image count start
    · exact absurd h hfailure
    · rw [hentries, List.length_cons, ih (hfailure ▸ h)]

/-- The entries of a walk that does not fail lie one after another up to its cursor. -/
theorem tiles_entries (h : (run options image count start).failure = none) :
    Tiles start (run options image count start).entries
      (run options image count start).cursor := by
  induction count generalizing start with
  | zero => rfl
  | succ count ih =>
    obtain ⟨-, hfailure, -⟩ | ⟨first, hentry, hentries, hfailure, hcursor⟩ :=
      run_succ_cases options image count start
    · exact absurd h hfailure
    · rw [hentries, hcursor]
      exact ⟨hentry.offset_eq, ih (hfailure ▸ h)⟩

/-! ## Where a walk fails -/

/-- A walk goes on after an entry that is read. -/
theorem run_succ_of_ok {count start cursor : Nat} {entry : Entry} {notes : List Note}
    (h : Entry.read options image start = ⟨.ok entry, cursor, notes⟩) :
    run options image (count + 1) start =
      let rest := run options image count cursor
      ⟨entry :: rest.entries, rest.failure, rest.cursor, entry.events ++ rest.events,
        notes ++ rest.notes⟩ := by
  rw [run, h]

/-- A walk ends at an entry that cannot be read. -/
theorem run_succ_of_error {count start cursor : Nat} {e : Error} {notes : List Note}
    (h : Entry.read options image start = ⟨.error e, cursor, notes⟩) :
    run options image (count + 1) start = ⟨[], some e, cursor, [], notes⟩ := by
  rw [run, h]

/-- **A walk publishes the commands that it decodes**, in their order, also if it fails later. -/
theorem events_run (options : Options) (image : ByteArray) (count start : Nat) :
    (run options image count start).events =
      (run options image count start).commands.map .commandDecoded := by
  induction count generalizing start with
  | zero => rfl
  | succ count ih =>
    rcases h : Entry.read options image start with ⟨e | entry, cursor, notes⟩
    · rw [run_succ_of_error h]
      rfl
    · rw [run_succ_of_ok h]
      show entry.events ++ (run options image count cursor).events = _
      rw [ih]
      cases entry with
      | decoded c => rfl
      | skipped c => rfl

/-- A longer walk fails at the entry behind those of a shorter one, if that entry cannot be read. -/
theorem run_of_read_error {count k start : Nat} {e : Error} (hlt : k < count)
    (hbefore : (run options image k start).failure = none)
    (hread : (Entry.read options image (run options image k start).cursor).result = .error e) :
    (run options image count start).failure = some e ∧
      (run options image count start).entries = (run options image k start).entries := by
  induction k generalizing count start with
  | zero =>
    obtain ⟨count, rfl⟩ := Nat.exists_eq_succ_of_ne_zero (Nat.ne_of_gt hlt)
    rcases h : Entry.read options image start with ⟨e' | entry, cursor, notes⟩
    · have herror : Except.error e' = .error e := (congrArg Outcome.result h).symm.trans hread
      cases herror
      rw [run_succ_of_error h]
      exact ⟨rfl, rfl⟩
    · have hok : Except.ok entry = .error e := (congrArg Outcome.result h).symm.trans hread
      cases hok
  | succ k ih =>
    obtain ⟨count, rfl⟩ := Nat.exists_eq_succ_of_ne_zero (Nat.ne_of_gt (Nat.zero_lt_of_lt hlt))
    rcases h : Entry.read options image start with ⟨e' | entry, cursor, notes⟩
    · rw [run_succ_of_error h] at hbefore
      cases hbefore
    · rw [run_succ_of_ok h] at hbefore hread ⊢
      rw [run_succ_of_ok h]
      obtain ⟨hfailure, hentries⟩ := ih (Nat.lt_of_succ_lt_succ hlt) hbefore hread
      exact ⟨hfailure, congrArg (entry :: ·) hentries⟩

/-- A walk that fails does so at an entry behind a shorter walk that does not fail. -/
theorem exists_read_error {count start : Nat} {e : Error}
    (h : (run options image count start).failure = some e) :
    ∃ k < count, (run options image k start).failure = none ∧
      (Entry.read options image (run options image k start).cursor).result = .error e := by
  induction count generalizing start with
  | zero => cases h
  | succ count ih =>
    rcases hread : Entry.read options image start with ⟨e' | entry, cursor, notes⟩
    · rw [run_succ_of_error hread] at h
      cases h
      exact ⟨0, Nat.succ_pos _, rfl, congrArg Outcome.result hread⟩
    · rw [run_succ_of_ok hread] at h
      obtain ⟨k, hlt, hbefore, herror⟩ := ih h
      refine ⟨k + 1, Nat.succ_lt_succ hlt, ?_, ?_⟩
      · rw [run_succ_of_ok hread]
        exact hbefore
      · rw [run_succ_of_ok hread]
        exact herror

end Walk

end MachImage
