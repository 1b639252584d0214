import MachImage.Proofs.Command.Faults
import MachImage.Proofs.Image.CommandRuns

/-!
# Reading again without bind streams

A bind stream that cannot be read need not be the end: whoever only wants the
segments and the symbols can read the image again without its bind streams.
This says what that is good for.

A failure that blames a stream comes from the walk over the commands, at a
command that declares streams, and only if the streams are read
(`Image.stopsAtStreams_of_parse`).  Up to there the second parse decodes the same
commands without their bindings, and then that command too, unless it does not
end inside the image (`Image.Retries`).  `Image.parse_retry` puts the two parses
together.
-/

namespace MachImage

variable {options full bare : Options} {image : ByteArray} {pos count start k : Nat} {e : Error}

/-! ## The command whose streams were refused -/

/-- The command at a position with the tables of the loader, as it is read without its streams. -/
def Command.loaderTablesAt (options : Options) (image : ByteArray) (pos : Nat) (id : CommandId) :
    Command :=
  ⟨headerAt image pos id, Command.bodyAt options image (headerAt image pos id) .dyldInfo⟩

namespace DeclaresStreams

variable {id : CommandId}

/-- Without its streams the command is decoded if it ends inside the image. -/
theorem entryAt (h : DeclaresStreams image pos id) (hbare : bare.bindInfo = false)
    (hend : pos + (lengthAt image pos).toNat ≤ image.size) :
    EntryAt bare image pos (.decoded (Command.loaderTablesAt bare image pos id)) := by
  have hsize : Record.dyldInfo.size = 48 := rfl
  have hlength := h.le_length
  refine .decoded (by omega) hend h.id_eq h.shape_eq ⟨hlength, ?_⟩
  exact ⟨streamFits_of_not_reads hbare, streamFits_of_not_reads hbare,
    streamFits_of_not_reads hbare⟩

/-- If it does not, that is what is wrong with it. -/
theorem read_eq_error (h : DeclaresStreams image pos id) (hbare : bare.bindInfo = false)
    (hend : image.size < pos + (lengthAt image pos).toNat) :
    (Entry.read bare image pos).result =
      .error (.bufferTooSmall (pos + (lengthAt image pos).toNat) image.size) := by
  have hsize : Record.dyldInfo.size = 48 := rfl
  obtain ⟨hid, hshape, hlength, hrecord⟩ := h
  rcases (Entry.read bare).yields_or_fails image pos with
    ⟨entry, cursor, hyields⟩ | ⟨e, cursor, hfails⟩
  · obtain ⟨hentry, -⟩ := Entry.yields_read.1 hyields
    have hinside := hentry.end_le_size
    rw [hentry.length_eq] at hinside
    omega
  · rw [hfails.1]
    cases Entry.fault_of_fails hfails with
    | missing => omega
    | short => omega
    | unsupported _ hid' hshape' =>
      rw [hid] at hid'
      cases hid'
      rw [hshape] at hshape'
      cases hshape'
    | beyond => rfl
    | body _ _ hid' hshape' hbody =>
      rw [hid] at hid'
      cases hid'
      rw [hshape] at hshape'
      cases hshape'
      -- the record that declares the streams is read, and nothing else is
      obtain ⟨n, body, hread⟩ := Command.readDyldInfo_eq hbare (headerAt image pos id)
      rw [Command.readBody, hread] at hbody
      obtain ⟨place, hbody⟩ := Reader.result_eq_error_iff.1 hbody
      rcases Reader.fails_bind.1 hbody with hfirst | ⟨v, middle, -, hrest⟩
      · rcases Reader.fails_unless.1 hfirst with ⟨hshort, -⟩ | ⟨-, hmissing⟩
        · exact absurd hshort (Nat.not_lt_of_le hlength)
        · have hlt := (Reader.fails_bytes_map.1 hmissing).1
          omega
      · exact absurd (Reader.fails_map.1 hrest) Reader.not_fails_note

end DeclaresStreams

/-! ## Walks -/

namespace Tiles

variable {stop stop' : Nat} {es : List Entry}

/-- Entries take the same room without their bindings. -/
theorem withoutBindings (h : Tiles start es stop) :
    Tiles start (es.map Entry.withoutBindings) stop := by
  induction es generalizing start with
  | nil => exact h
  | cons e es ih =>
    refine ⟨?_, ?_⟩
    · rw [← h.1]
      cases e <;> rfl
    · rw [Entry.length_withoutBindings]
      exact ih h.2

/-- Entries that lie one after another end at one place. -/
theorem stop_unique (h : Tiles start es stop) (h' : Tiles start es stop') : stop = stop' := by
  induction es generalizing start with
  | nil => exact Eq.trans (Eq.symm h) h'
  | cons e es ih => exact ih h.2 h'.2

end Tiles

namespace Walk

/-- A walk ends at the same place without the bindings. -/
theorem cursor_withoutBindings (hfull : full.bindInfo = true) (hbare : bare.bindInfo = false)
    (h : (run full image count start).failure = none) :
    (run bare image count start).cursor = (run full image count start).cursor := by
  obtain ⟨hnone, hentries, -⟩ := run_withoutBindings hfull hbare h
  have hfullTiles := (tiles_entries h).withoutBindings
  have hbareTiles := tiles_entries hnone
  rw [hentries] at hbareTiles
  exact hbareTiles.stop_unique hfullTiles

/-- A walk that gets to an entry meets it, and goes on behind it. -/
theorem entries_through {entry : Entry} (hlt : k < count)
    (hbefore : (run options image k start).failure = none)
    (hentry : EntryAt options image (run options image k start).cursor entry) :
    ∃ later, (run options image count start).entries =
      (run options image k start).entries ++ entry :: later := by
  obtain ⟨m, rfl⟩ := Nat.exists_eq_add_of_lt hlt
  rw [Nat.add_assoc, run_add, followedBy_of_none hbefore]
  obtain ⟨-, -, hnone⟩ | ⟨entry', hentry', hentries, -⟩ :=
    run_succ_cases options image m (run options image k start).cursor
  · exact absurd hentry (hnone entry)
  · obtain rfl := hentry'.unique hentry
    exact ⟨_, congrArg _ hentries⟩

end Walk

/-! ## Parses -/

/-- An event without the bindings of the command that it tells of. -/
def Event.withoutBindings : Event → Event
  | commandDecoded c => .commandDecoded c.withoutBindings
  | event => event

namespace Image

variable {header : Header} {events : List Event}

/-- The events of a parse start with the commands that were decoded. -/
theorem exists_events_build (hheader : (readHeader image).result = .ok (header, start)) :
    ∃ more, (build options image).events =
      (Walk.run options image header.commandCount.toNat start).commands.map .commandDecoded ++
        more := by
  cases hcommands : (readCommands options image header.commandCount.toNat start).result with
  | error e =>
    obtain ⟨-, hevents⟩ := events_build_of_commands_error hheader hcommands
    exact ⟨[], by rw [hevents, List.append_nil]⟩
  | ok walk =>
    rw [build, Report.bind_eq_of_ok hheader]
    dsimp only
    rw [Report.bind_eq_of_ok hcommands, events_readCommands]
    exact ⟨_, rfl⟩

theorem isBindStreamError_of_readHeader (h : (readHeader image).result = .error e) :
    e.isBindStreamError = false := by
  have hread := result_readHeader_eq_error_iff.1 h
  exact Header.noStreamFault_read image 0 e _ ⟨hread, rfl⟩

theorem isBindStreamError_of_readContents {c : SegmentCommand}
    (h : Segment.readContents options image c = .error e) : e.isBindStreamError = false := by
  have hreader : (Segment.contentsReader c).NoStreamFault :=
    (Reader.noStreamFault_seek _).bind fun _ => Reader.noStreamFault_bytes _
  unfold Segment.readContents at h
  split_ifs at h
  exact hreader image 0 e _ ⟨h, rfl⟩

/-- A parse stops at the command at `place`, behind `k` others, because of a stream that it
declares. -/
structure StopsAtStreams (options : Options) (image : ByteArray) (e : Error) (header : Header)
    (start k place : Nat) (id : CommandId) : Prop where
  header_eq : (readHeader image).result = .ok (header, start)
  lt_count : k < header.commandCount.toNat
  /-- The commands before it are read, -/
  before : (Walk.run options image k start).failure = none
  place_eq : (Walk.run options image k start).cursor = place
  /-- and this one is not. -/
  refused : (Entry.read options image place).result = .error e
  declares : DeclaresStreams image place id
  /-- The commands before it have been published, and nothing else. -/
  events_eq : (build options image).events =
    (Walk.run options image k start).commands.map .commandDecoded

/-- **A failure that blames a stream stops the parse at the command that declares it**, and only a
parse that reads the streams. -/
theorem stopsAtStreams_of_parse (h : parse image options = .error e)
    (he : e.isBindStreamError = true) :
    options.bindInfo = true ∧
      ∃ header start k place id, StopsAtStreams options image e header start k place id := by
  have hfails := failsAt_iff.2 ⟨h, rfl⟩
  generalize hevents : (build options image).events = events at hfails
  cases hfails with
  | header hheader =>
    have hnot := isBindStreamError_of_readHeader hheader
    rw [he] at hnot
    cases hnot
  | contents _ _ _ _ hread =>
    have hnot := isBindStreamError_of_readContents hread
    rw [he] at hnot
    cases hnot
  | symbol => cases he
  | command hheader hlt hbefore hread =>
    obtain ⟨cursor, hfails⟩ := Reader.result_eq_error_iff.1 hread
    obtain ⟨hinfo, id, hdeclares⟩ := (Entry.fault_of_fails hfails).of_stream he
    exact ⟨hinfo, _, _, _, _, id, hheader, hlt, hbefore, rfl, hread, hdeclares, hevents⟩

/-- What a parse without bindings does where one with bindings stopped at the command at `place`,
behind `k` others. -/
structure Retries (full bare : Options) (image : ByteArray) (header : Header)
    (start k place : Nat) (id : CommandId) : Prop where
  /-- The commands before it are read again, and are the same but for their bindings. -/
  before : (Walk.run bare image k start).failure = none ∧
    (Walk.run bare image k start).entries =
      (Walk.run full image k start).entries.map Entry.withoutBindings ∧
    (Walk.run bare image k start).cursor = place
  /-- If it ends inside the image, so is it, and more is published than before. -/
  decodes : place + (lengthAt image place).toNat ≤ image.size → ∃ later more,
    (Walk.run bare image header.commandCount.toNat start).commands =
      (Walk.run full image k start).commands.map Command.withoutBindings ++
        Command.loaderTablesAt bare image place id :: later ∧
    (build bare image).events =
      (build full image).events.map Event.withoutBindings ++
        .commandDecoded (Command.loaderTablesAt bare image place id) :: more
  /-- If it does not, the second parse fails for that. -/
  refuses : image.size < place + (lengthAt image place).toNat →
    parse image bare = .error (.bufferTooSmall (place + (lengthAt image place).toNat) image.size) ∧
      (build bare image).events = (build full image).events.map Event.withoutBindings

theorem map_withoutBindings_events (commands : List Command) :
    (commands.map Event.commandDecoded).map Event.withoutBindings =
      (commands.map Command.withoutBindings).map .commandDecoded := by
  simp only [List.map_map]
  rfl

theorem StopsAtStreams.retries {place : Nat} {id : CommandId} (hfull : full.bindInfo = true)
    (hbare : bare.bindInfo = false) (h : StopsAtStreams full image e header start k place id) :
    Retries full bare image header start k place id := by
  obtain ⟨hnone, hentries, -⟩ := Walk.run_withoutBindings hfull hbare h.before
  have hcursor : (Walk.run bare image k start).cursor = place :=
    (Walk.cursor_withoutBindings hfull hbare h.before).trans h.place_eq
  have hcommands : (Walk.run bare image k start).commands =
      (Walk.run full image k start).commands.map Command.withoutBindings := by
    rw [Walk.commands, hentries, Entry.filterMap_command?_withoutBindings]
    rfl
  refine ⟨⟨hnone, hentries, hcursor⟩, ?_, ?_⟩
  · intro hend
    have hentry := h.declares.entryAt hbare hend
    rw [← hcursor] at hentry
    obtain ⟨later, hlater⟩ := Walk.entries_through h.lt_count hnone hentry
    have hall : (Walk.run bare image header.commandCount.toNat start).commands =
        (Walk.run full image k start).commands.map Command.withoutBindings ++
          Command.loaderTablesAt bare image place id :: later.filterMap Entry.command? := by
      rw [Walk.commands, hlater, List.filterMap_append, ← hcommands, ← hcursor]
      rfl
    -- the walk publishes its commands whatever becomes of the stages behind it
    obtain ⟨more, hmore⟩ : ∃ more, (build bare image).events = _ ++ more :=
      exists_events_build h.header_eq
    refine ⟨_, (later.filterMap Entry.command?).map .commandDecoded ++ more, hall, ?_⟩
    rw [hmore, hall, h.events_eq, map_withoutBindings_events]
    simp
  · intro hend
    have hread := h.declares.read_eq_error hbare hend
    rw [← hcursor] at hread
    have hfails : FailsAt bare image _ _ := .command h.header_eq h.lt_count hnone hread
    obtain ⟨hresult, hevents⟩ := failsAt_iff.1 hfails
    rw [hcursor] at hresult
    rw [hevents, h.events_eq, map_withoutBindings_events, hcommands]
    exact ⟨hresult, rfl⟩

/-- **Reading again without bind streams.**  A parse without them never blames one.  If a parse with
them does, it has stopped at a command that declares streams, and the parse without them decodes
what was decoded by then, without the bindings, and that command; or fails because the command does
not end inside the image. -/
theorem parse_retry (options : Options) (image : ByteArray) :
    (∀ e, parse image { options with bindInfo := false } = .error e →
      e.isBindStreamError = false) ∧
    ∀ e, parse image { options with bindInfo := true } = .error e → e.isBindStreamError = true →
      ∃ header start k place id,
        StopsAtStreams { options with bindInfo := true } image e header start k place id ∧
          Retries { options with bindInfo := true } { options with bindInfo := false } image header
            start k place id := by
  constructor
  · intro e h
    by_contra he
    obtain ⟨hinfo, -⟩ := stopsAtStreams_of_parse h (by simpa using he)
    cases hinfo
  · intro e h he
    obtain ⟨-, header, start, k, place, id, hstops⟩ := stopsAtStreams_of_parse h he
    exact ⟨header, start, k, place, id, hstops, hstops.retries rfl rfl⟩

/-- An image with the version of its source and, behind it, the tables of the loader with a stream
of one byte that is no instruction.  The tables say how long they are. -/
def refusedStream (length : UInt8) : ByteArray := ⟨#[
  0xCE, 0xFA, 0xED, 0xFE, 12, 0, 0, 0, 9, 0, 0, 0, 2, 0, 0, 0, 2, 0, 0, 0, 64, 0, 0, 0, 0, 0, 0, 0,
  0x2A, 0, 0, 0, 16, 0, 0, 0, 0, 4, 0, 0, 0, 0, 0, 0,
  0x22, 0, 0, 0, length, 0, 0, 0, 0, 0, 0, 0, 0, 0, 0, 0, 92, 0, 0, 0, 1, 0, 0, 0,
  0, 0, 0, 0, 0, 0, 0, 0, 0, 0, 0, 0, 0, 0, 0, 0, 0, 0, 0, 0, 0, 0, 0, 0, 0xD0]⟩

/-- The parse stops at the second command, which starts behind 44 bytes. -/
theorem place_refusedStream {length : UInt8} {e : Error} {header : Header} {start k place : Nat}
    {id : CommandId} (hlength : length = 48 ∨ length = 255)
    (h : StopsAtStreams {} (refusedStream length) e header start k place id) : place = 44 := by
  have hheader : ((readHeader (refusedStream length)).result.toOption.map fun p =>
      (p.1.commandCount.toNat, p.2)) = some (2, 28) := by
    rcases hlength with rfl | rfl <;> decide +kernel
  have hfirst : (Entry.read {} (refusedStream length) 28).result.toOption.isSome = true := by
    rcases hlength with rfl | rfl <;> decide +kernel
  have hsecond : (Walk.run {} (refusedStream length) 1 28).cursor = 44 := by
    rcases hlength with rfl | rfl <;> decide +kernel
  rw [h.header_eq] at hheader
  obtain ⟨hcount, rfl⟩ := Prod.mk.inj (Option.some.inj hheader)
  have hlt : k < 2 := hcount ▸ h.lt_count
  obtain rfl | rfl : k = 0 ∨ k = 1 := by omega
  · obtain rfl : 28 = place := h.place_eq
    rw [h.refused] at hfirst
    cases hfirst
  · exact h.place_eq.symm.trans hsecond

/-- The tables that end inside the image are decoded when it is read again; those that do not are
then refused for it. -/
theorem refusedStream_retry :
    (parse (refusedStream 48) = .error (.unknownBindOpcode 0xD0 92) ∧
      ∃ c more, c.header.offset = 44 ∧
        (build { bindInfo := false } (refusedStream 48)).events =
          (build {} (refusedStream 48)).events.map Event.withoutBindings ++
            .commandDecoded c :: more) ∧
    parse (refusedStream 255) = .error (.unknownBindOpcode 0xD0 92) ∧
      parse (refusedStream 255) { bindInfo := false } = .error (.bufferTooSmall 299 93) := by
  have hshort : parse (refusedStream 48) = .error (.unknownBindOpcode 0xD0 92) := by
    apply parse_eq_error_of_check
    decide +kernel
  have hlong : parse (refusedStream 255) = .error (.unknownBindOpcode 0xD0 92) := by
    apply parse_eq_error_of_check
    decide +kernel
  obtain ⟨header, start, k, place, id, hstops, hretries⟩ :=
    (parse_retry {} (refusedStream 48)).2 _ hshort rfl
  obtain ⟨header', start', k', place', id', hstops', hretries'⟩ :=
    (parse_retry {} (refusedStream 255)).2 _ hlong rfl
  obtain rfl := place_refusedStream (Or.inl rfl) hstops
  obtain rfl := place_refusedStream (Or.inr rfl) hstops'
  obtain ⟨-, more, -, hevents⟩ := hretries.decodes (by decide)
  obtain ⟨hrefused, -⟩ := hretries'.refuses (by decide)
  exact ⟨⟨hshort, _, more, rfl, hevents⟩, hlong, hrefused⟩

end Image

end MachImage
