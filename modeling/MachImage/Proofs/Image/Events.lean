import MachImage.Image.Query
import MachImage.Proofs.Image.Symbols

/-!
# The event log

The events that building an image publishes are the image again: its commands,
its segments with their sections and its exposed symbols, in this order
(`Image.events_of_ok`), and the names of the image are those that the log
exposes, later symbols over earlier ones (`Image.getElem?_replay`).

A building that fails has published what was complete before.  `Image.FailsAt`
lists where it can fail and what the log holds then: nothing if the header is
refused, the decoded commands before the one that cannot be read, the segments
before the one whose contents are missing, and no symbols if one of them is in a
section that does not exist.  `Image.events_build` says that these are all the
ways to fail.
-/

namespace MachImage

/-! ## Reports of stages -/

namespace Report

variable {α β : Type} {r : Report α} {f : α → Report β}

/-- What follows a stage that succeeds adds to its events. -/
theorem bind_eq_of_ok {a : α} (h : r.result = .ok a) :
    r >>= f = ⟨(f a).result, r.events ++ (f a).events, r.notes ++ (f a).notes⟩ := by
  rcases r with ⟨_ | a', events, notes⟩
  · cases h
  · cases h
    rfl

/-- Nothing follows a stage that fails. -/
theorem bind_eq_of_error {e : Error} (h : r.result = .error e) :
    r >>= f = ⟨.error e, r.events, r.notes⟩ := by
  rcases r with ⟨e' | a', events, notes⟩
  · cases h
    rfl
  · cases h

/-- What is computed from the value of a stage adds nothing. -/
theorem bind_pure_eq (r : Report α) (f : α → β) :
    (r >>= fun a => Pure.pure (f a)) = ⟨r.result.map f, r.events, r.notes⟩ := by
  rcases r with ⟨_ | a, events, notes⟩
  · rfl
  · show (⟨.ok (f a), events ++ [], notes ++ []⟩ : Report β) = _
    rw [List.append_nil, List.append_nil]
    rfl

theorem resultOf_eq_error_iff {failure : Option Error} {a : α} {e : Error} :
    resultOf failure a = .error e ↔ failure = some e := by
  cases failure with
  | none => simp [resultOf]
  | some e' => simp [resultOf]

end Report

variable {options : Options} {image : ByteArray}

/-! ## Where a table fails -/

namespace SegmentTable

/-- A table ends at a segment whose contents cannot be read. -/
theorem build_cons_of_error {c : SegmentCommand} {e : Error}
    (h : Segment.readContents options image c = .error e) (position number : Nat)
    (cs : List SegmentCommand) :
    build options image position number (c :: cs) = ⟨[], [], [], some e⟩ := by
  rw [build, h]

/-- A table fails at the command behind those of a shorter one, if its contents cannot be read. -/
theorem build_of_read_error {position number : Nat} {before : List SegmentCommand}
    {c : SegmentCommand} {e : Error}
    (hbefore : (build options image position number before).failure = none)
    (hread : Segment.readContents options image c = .error e) (after : List SegmentCommand) :
    build options image position number (before ++ c :: after) =
      { build options image position number before with failure := some e } := by
  induction before generalizing position number with
  | nil => exact build_cons_of_error hread position number after
  | cons d before ih =>
    cases hd : Segment.readContents options image d with
    | error e' =>
      rw [build_cons_of_error hd] at hbefore
      cases hbefore
    | ok contents =>
      rw [build_cons hd] at hbefore
      rw [List.cons_append, build_cons hd, build_cons hd, ih hbefore]

/-- A table that fails does so at a command behind a shorter table that does not fail. -/
theorem exists_read_error {position number : Nat} {cs : List SegmentCommand} {e : Error}
    (h : (build options image position number cs).failure = some e) :
    ∃ before c after, cs = before ++ c :: after ∧
      (build options image position number before).failure = none ∧
      Segment.readContents options image c = .error e := by
  induction cs generalizing position number with
  | nil => cases h
  | cons d cs ih =>
    cases hd : Segment.readContents options image d with
    | error e' =>
      rw [build_cons_of_error hd] at h
      cases h
      exact ⟨[], d, cs, rfl, rfl, hd⟩
    | ok contents =>
      rw [build_cons hd] at h
      obtain ⟨before, c, after, rfl, hbefore, hread⟩ := ih h
      refine ⟨d :: before, c, after, rfl, ?_, hread⟩
      rw [build_cons hd]
      exact hbefore

end SegmentTable

theorem Symbol.refuseMisplaced_eq_error_iff {sectionCount : Nat} {symbols : List Symbol}
    {e : Error} :
    refuseMisplaced sectionCount symbols = .error e ↔
      ∃ before s after, symbols = before ++ s :: after ∧
        (∀ r ∈ before, ¬ r.Misplaced sectionCount) ∧ s.Misplaced sectionCount ∧
        e = s.misplacement sectionCount := by
  constructor
  · intro h
    unfold refuseMisplaced at h
    cases hfind : symbols.find? (fun s => s.Misplaced sectionCount) with
    | none =>
      rw [hfind] at h
      cases h
    | some s =>
      rw [hfind] at h
      cases h
      obtain ⟨hs, before, after, hsplit, hbefore⟩ := List.find?_eq_some_iff_append.1 hfind
      exact ⟨before, s, after, hsplit, by simpa using hbefore, of_decide_eq_true hs, rfl⟩
  · rintro ⟨before, s, after, rfl, hbefore, hs, rfl⟩
    induction before with
    | nil => exact refuseMisplaced_cons_of_misplaced hs after
    | cons r before ih =>
      rw [List.forall_mem_cons] at hbefore
      rw [List.cons_append, refuseMisplaced_cons_of_placed hbefore.1, ih hbefore.2]
      rfl

namespace Image

/-! ## The events of the symbols -/

/-- What exposing symbols publishes are the exposed ones, in the order of the table. -/
theorem events_expose (names : NameTable) (place : Nat) (symbols : List Symbol) :
    (expose names place symbols).events =
      (symbols.filter Symbol.isExposed).map .symbolExposed := by
  induction symbols generalizing names place with
  | nil => rfl
  | cons s symbols ih =>
    by_cases hexposed : s.isExposed = true
    · rw [expose, if_pos hexposed, List.filter_cons_of_pos hexposed, List.map_cons]
      exact congrArg (.symbolExposed s :: ·) (ih _ _)
    · rw [expose, if_neg hexposed, List.filter_cons_of_neg hexposed, ih]

/-- Symbols are published once all of them are resolved: those that are exposed, in the order of the
table. -/
theorem events_buildSymbols_of_ok {t : Targets} {commands : List Command} {symbols : List Symbol}
    (h : (buildSymbols t commands).result = .ok symbols) :
    (buildSymbols t commands).events =
      (symbols.filter Symbol.isExposed).map .symbolExposed := by
  unfold buildSymbols at *
  cases htable : commands.findSome? Command.symtab? with
  | none =>
    simp only [htable] at h ⊢
    cases h
    rfl
  | some table =>
    simp only [htable, resolveEntries] at h ⊢
    cases hentries : table.entries.mapM t.resolve with
    | error e =>
      simp only [hentries] at h
      cases h
    | ok resolved =>
      simp only [hentries] at h
      cases h
      exact events_expose ∅ 0 symbols

/-- No symbol is published if one of them cannot be resolved. -/
theorem events_buildSymbols_of_error {t : Targets} {commands : List Command} {e : Error}
    (h : (buildSymbols t commands).result = .error e) : (buildSymbols t commands).events = [] := by
  unfold buildSymbols at *
  cases htable : commands.findSome? Command.symtab? with
  | none =>
    simp only [htable] at h ⊢
    cases h
  | some table =>
    simp only [htable, resolveEntries] at h ⊢
    cases hentries : table.entries.mapM t.resolve with
    | error e' =>
      simp only
    | ok resolved =>
      simp only [hentries] at h
      cases h

/-- Symbols cannot be resolved exactly if sections are strict and one of them is misplaced; the
first one is the failure. -/
theorem result_buildSymbols_eq_error_iff {t : Targets} {commands : List Command} {e : Error} :
    (buildSymbols t commands).result = .error e ↔
      t.strictSections = true ∧
        ∃ before s after, (tableEntries commands).map t.symbolOf = before ++ s :: after ∧
          (∀ r ∈ before, ¬ r.Misplaced t.sectionCount) ∧ s.Misplaced t.sectionCount ∧
          e = s.misplacement t.sectionCount := by
  rw [result_buildSymbols]
  cases hstrict : t.strictSections with
  | false =>
    rw [Targets.mapM_resolve_of_lenient hstrict]
    constructor
    · intro h
      cases h
    · rintro ⟨h, -⟩
      cases h
  | true =>
    rw [Targets.mapM_resolve_of_strict hstrict, Symbol.refuseMisplaced_eq_error_iff]
    simp only [true_and]

/-! ## The events of an image -/

/-- The events that an image is worth. -/
def log (img : Image) : List Event :=
  img.commands.map .commandDecoded ++
    img.segments.flatMap (fun s => .segmentBuilt s :: s.sections.map .sectionBuilt) ++
    (img.symbols.toList.filter fun s => !s.isStab && s.name ≠ "").map .symbolExposed

/-- The places where building an image can fail, with the events published by then. -/
inductive FailsAt (options : Options) (image : ByteArray) : Error → List Event → Prop where
  /-- The header is refused: nothing has been published. -/
  | header {e : Error} (h : (readHeader image).result = .error e) : FailsAt options image e []
  /-- The command behind `k` others cannot be read: those of them that were decoded have been
  published. -/
  | command {header : Header} {start k : Nat} {e : Error}
      (hheader : (readHeader image).result = .ok (header, start))
      (hlt : k < header.commandCount.toNat)
      (hbefore : (Walk.run options image k start).failure = none)
      (hread : (Entry.read options image (Walk.run options image k start).cursor).result =
        .error e) :
      FailsAt options image e ((Walk.run options image k start).commands.map .commandDecoded)
  /-- The contents of a segment cannot be read: all commands have been published, and the segments
  before it. -/
  | contents {header : Header} {start : Nat} {walk : Walk} {before after : List SegmentCommand}
      {c : SegmentCommand} {e : Error}
      (hheader : (readHeader image).result = .ok (header, start))
      (hwalk : (readCommands options image header.commandCount.toNat start).result = .ok walk)
      (hsplit : walk.commands.filterMap Command.segment? = before ++ c :: after)
      (hbefore : (SegmentTable.build options image 0 1 before).failure = none)
      (hread : Segment.readContents options image c = .error e) :
      FailsAt options image e
        (walk.commands.map .commandDecoded ++
          (SegmentTable.build options image 0 1 before).segments.flatMap Segment.events)
  /-- Sections are strict and a symbol is in one that does not exist: all commands, segments and
  sections have been published, but no symbol, not even one before it. -/
  | symbol {header : Header} {start : Nat} {walk : Walk} {table : SegmentTable}
      {before after : List Symbol} {s : Symbol}
      (hheader : (readHeader image).result = .ok (header, start))
      (hwalk : (readCommands options image header.commandCount.toNat start).result = .ok walk)
      (hsegments : (buildSegments options image walk.commands).result = .ok table)
      (hstrict : options.strictSections = true)
      (hsplit : (tableEntries walk.commands).map
          (targetsOf options header table.places (librariesOf header walk.commands)).symbolOf =
        before ++ s :: after)
      (hbefore : ∀ r ∈ before, ¬ r.Misplaced (table.segments.flatMap Segment.sections).length)
      (hs : s.Misplaced (table.segments.flatMap Segment.sections).length) :
      FailsAt options image
        (.sectionOutOfRange s.name s.sectionNumber
          (table.segments.flatMap Segment.sections).length)
        (walk.commands.map .commandDecoded ++ table.segments.flatMap Segment.events)

/-! ## The stages of a building -/

theorem result_readCommands_eq_error_iff {count start : Nat} {e : Error} :
    (readCommands options image count start).result = .error e ↔
      (Walk.run options image count start).failure = some e :=
  Report.resultOf_eq_error_iff

theorem result_buildSegments_eq_error_iff {commands : List Command} {e : Error} :
    (buildSegments options image commands).result = .error e ↔
      (SegmentTable.build options image 0 1 (commands.filterMap Command.segment?)).failure =
        some e :=
  Report.resultOf_eq_error_iff

/-- The commands that are read publish those that were decoded, also if one cannot be read. -/
theorem events_readCommands (options : Options) (image : ByteArray) (count start : Nat) :
    (readCommands options image count start).events =
      (Walk.run options image count start).commands.map .commandDecoded :=
  Walk.events_run options image count start

/-- The segments that are built are published with their sections. -/
theorem events_buildSegments_of_ok {commands : List Command} {table : SegmentTable}
    (h : (buildSegments options image commands).result = .ok table) :
    (buildSegments options image commands).events = table.segments.flatMap Segment.events := by
  obtain ⟨-, rfl⟩ := result_buildSegments_eq_ok_iff.1 h
  exact SegmentTable.events_eq_flatMap options image 0 1 _

/-- The table of places has a place for each section of the segments. -/
theorem length_places_of_buildSegments {commands : List Command} {table : SegmentTable}
    (h : (buildSegments options image commands).result = .ok table) :
    table.places.length = (table.segments.flatMap Segment.sections).length := by
  obtain ⟨-, rfl⟩ := result_buildSegments_eq_ok_iff.1 h
  exact SegmentTable.length_places_build options image 1 _

section Stages

variable {header : Header} {start : Nat} {walk : Walk} {table : SegmentTable} {e : Error}

theorem events_build_of_header_error (hheader : (readHeader image).result = .error e) :
    (build options image).result = .error e ∧ (build options image).events = [] := by
  rw [build, Report.bind_eq_of_error hheader]
  exact ⟨rfl, rfl⟩

theorem events_build_of_commands_error (hheader : (readHeader image).result = .ok (header, start))
    (hwalk : (readCommands options image header.commandCount.toNat start).result = .error e) :
    (build options image).result = .error e ∧
      (build options image).events =
        (Walk.run options image header.commandCount.toNat start).commands.map .commandDecoded := by
  rw [build, Report.bind_eq_of_ok hheader]
  dsimp only
  rw [Report.bind_eq_of_error hwalk]
  exact ⟨rfl, events_readCommands options image _ _⟩

variable (hheader : (readHeader image).result = .ok (header, start))
  (hwalk : (readCommands options image header.commandCount.toNat start).result = .ok walk)

include hheader hwalk

theorem events_build_of_segments_error
    (hsegments : (buildSegments options image walk.commands).result = .error e) :
    (build options image).result = .error e ∧
      (build options image).events =
        walk.commands.map .commandDecoded ++ (buildSegments options image walk.commands).events := by
  obtain ⟨-, hrun⟩ := result_readCommands_eq_ok_iff.1 hwalk
  rw [build, Report.bind_eq_of_ok hheader]
  dsimp only
  rw [Report.bind_eq_of_ok hwalk]
  dsimp only
  rw [Report.bind_eq_of_error hsegments, events_readCommands, ← hrun]
  exact ⟨rfl, rfl⟩

variable (hsegments : (buildSegments options image walk.commands).result = .ok table)

include hsegments

/-- Once the segments are built, the symbols decide. -/
theorem build_of_segments :
    (build options image).result =
        (buildSymbols (targetsOf options header table.places (librariesOf header walk.commands))
          walk.commands).result.map
          (ofStages header walk table (librariesOf header walk.commands)) ∧
      (build options image).events =
        walk.commands.map .commandDecoded ++ table.segments.flatMap Segment.events ++
          (buildSymbols (targetsOf options header table.places (librariesOf header walk.commands))
            walk.commands).events := by
  obtain ⟨-, hrun⟩ := result_readCommands_eq_ok_iff.1 hwalk
  have hlibraries := result_listLibraries header walk.commands
  have hsilent : (listLibraries header walk.commands).events = [] := by
    unfold listLibraries
    split <;> rfl
  have hcommands : (readCommands options image header.commandCount.toNat start).events =
      walk.commands.map .commandDecoded := by
    rw [events_readCommands, ← hrun]
  have hsections := events_buildSegments_of_ok hsegments
  rw [build, Report.bind_eq_of_ok hheader]
  dsimp only
  rw [Report.bind_eq_of_ok hwalk]
  dsimp only
  rw [Report.bind_eq_of_ok hsegments]
  dsimp only
  rw [Report.bind_eq_of_ok hlibraries]
  dsimp only
  rw [Report.bind_pure_eq, hcommands, hsections, hsilent]
  constructor
  · rfl
  · simp only [List.nil_append, List.append_assoc]
    rfl

end Stages

/-! ## The log -/

/-- An image that is built has published its log. -/
theorem events_of_ok {img : Image} (h : (build options image).result = .ok img) :
    (build options image).events = img.log := by
  obtain ⟨header, start, table, libraries, symbols, hheader, hfailure, hsegments, hlibraries,
    hsymbols, rfl⟩ := parse_eq_ok_iff.1 h
  rw [result_listLibraries] at hlibraries
  cases hlibraries
  have hwalk := result_readCommands_eq_ok_iff.2 ⟨hfailure, rfl⟩
  rw [(build_of_segments hheader hwalk hsegments).2, events_buildSymbols_of_ok hsymbols]
  rfl

/-- At each of these places the building does fail, and has published so much. -/
theorem FailsAt.build_eq {e : Error} {events : List Event} (h : FailsAt options image e events) :
    (build options image).result = .error e ∧ (build options image).events = events := by
  cases h with
  | header h => exact events_build_of_header_error h
  | command hheader hlt hbefore hread =>
    obtain ⟨hfailure, hentries⟩ := Walk.run_of_read_error hlt hbefore hread
    have hwalk := result_readCommands_eq_error_iff.2 hfailure
    obtain ⟨hresult, hevents⟩ := events_build_of_commands_error hheader hwalk
    refine ⟨hresult, hevents.trans ?_⟩
    rw [Walk.commands, hentries, Walk.commands]
  | @contents _ _ _ before after c _ hheader hwalk hsplit hbefore hread =>
    have htable := SegmentTable.build_of_read_error hbefore hread after
    rw [← hsplit] at htable
    have hfailure := congrArg SegmentTable.failure htable
    have hsegments := result_buildSegments_eq_error_iff.2 hfailure
    obtain ⟨hresult, hevents⟩ := events_build_of_segments_error hheader hwalk hsegments
    refine ⟨hresult, hevents.trans ?_⟩
    rw [buildSegments, htable, ← SegmentTable.events_eq_flatMap]
  | symbol hheader hwalk hsegments hstrict hsplit hbefore hs =>
    rw [← length_places_of_buildSegments hsegments] at hbefore hs ⊢
    have hsymbols := result_buildSymbols_eq_error_iff.2
      ⟨hstrict, _, _, _, hsplit, hbefore, hs, rfl⟩
    obtain ⟨hresult, hevents⟩ := build_of_segments hheader hwalk hsegments
    rw [hresult, hevents, hsymbols, events_buildSymbols_of_error hsymbols, List.append_nil]
    exact ⟨rfl, rfl⟩

/-- A building that has its commands fails at the contents of a segment or at a symbol. -/
theorem failsAt_of_readCommands {header : Header} {start : Nat} {walk : Walk} {e : Error}
    (hheader : (readHeader image).result = .ok (header, start))
    (hwalk : (readCommands options image header.commandCount.toNat start).result = .ok walk)
    (hresult : (build options image).result = .error e) :
    FailsAt options image e (build options image).events := by
  cases hsegments : (buildSegments options image walk.commands).result with
  | error e' =>
    obtain ⟨hresult', hevents⟩ := events_build_of_segments_error hheader hwalk hsegments
    rw [hresult] at hresult'
    cases hresult'
    obtain ⟨before, c, after, hsplit, hbefore, hread⟩ :=
      SegmentTable.exists_read_error (result_buildSegments_eq_error_iff.1 hsegments)
    rw [hevents, buildSegments, hsplit, SegmentTable.build_of_read_error hbefore hread]
    dsimp only
    rw [SegmentTable.events_eq_flatMap]
    exact .contents hheader hwalk hsplit hbefore hread
  | ok table =>
    obtain ⟨hresult', hevents⟩ := build_of_segments hheader hwalk hsegments
    cases hsymbols : (buildSymbols
        (targetsOf options header table.places (librariesOf header walk.commands))
        walk.commands).result with
    | error e' =>
      rw [hresult, hsymbols] at hresult'
      cases hresult'
      obtain ⟨hstrict, before, s, after, hsplit, hbefore, hs, rfl⟩ :=
        result_buildSymbols_eq_error_iff.1 hsymbols
      rw [hevents, events_buildSymbols_of_error hsymbols, List.append_nil]
      have hcount : (targetsOf options header table.places
          (librariesOf header walk.commands)).sectionCount = _ :=
        length_places_of_buildSegments hsegments
      rw [hcount] at hbefore hs
      rw [Symbol.misplacement, hcount]
      exact .symbol hheader hwalk hsegments hstrict hsplit hbefore hs
    | ok symbols =>
      rw [hresult, hsymbols] at hresult'
      cases hresult'

/-- A building that fails does so at one of the places. -/
theorem failsAt_of_build {e : Error} (hresult : (build options image).result = .error e) :
    FailsAt options image e (build options image).events := by
  cases hheader : (readHeader image).result with
  | error e' =>
    obtain ⟨hresult', hevents⟩ : (build options image).result = .error e' ∧ _ :=
      events_build_of_header_error hheader
    rw [hresult] at hresult'
    cases hresult'
    rw [hevents]
    exact .header hheader
  | ok p =>
    obtain ⟨header, start⟩ := p
    cases hwalk : (readCommands options image header.commandCount.toNat start).result with
    | error e' =>
      obtain ⟨hresult', hevents⟩ := events_build_of_commands_error hheader hwalk
      rw [hresult] at hresult'
      cases hresult'
      obtain ⟨k, hlt, hbefore, hread⟩ :=
        Walk.exists_read_error (result_readCommands_eq_error_iff.1 hwalk)
      obtain ⟨-, hentries⟩ := Walk.run_of_read_error hlt hbefore hread
      rw [hevents, Walk.commands, hentries]
      exact .command hheader hlt hbefore hread
    | ok walk => exact failsAt_of_readCommands hheader hwalk hresult

/-- **The ways to fail**, each with the events published by then. -/
theorem failsAt_iff {e : Error} {events : List Event} :
    FailsAt options image e events ↔
      (build options image).result = .error e ∧ (build options image).events = events := by
  constructor
  · exact FailsAt.build_eq
  · rintro ⟨hresult, rfl⟩
    exact failsAt_of_build hresult

/-! ## Replaying the log -/

end Image

/-- The symbol that an event exposes. -/
def Event.exposed? : Event → Option Symbol
  | symbolExposed s => some s
  | _ => none

/-- The symbols that a log exposes under their names, later ones over earlier ones. -/
def replay (events : List Event) : Std.TreeMap String Symbol :=
  (events.filterMap Event.exposed?).foldl (fun named s => named.insert s.name s) ∅

namespace Image

/-- A table of names says the places of the symbols that another has under the same names. -/
def Places (symbols : List Symbol) (names : NameTable) (named : Std.TreeMap String Symbol) :
    Prop :=
  ∀ name : String, (names[name]? = none ∧ named[name]? = none) ∨
    ∃ (place : Nat) (s : Symbol), names[name]? = some place ∧ symbols[place]? = some s ∧
      named[name]? = some s

/-- Exposing a symbol by its place is exposing the symbol. -/
theorem Places.insert {symbols : List Symbol} {names : NameTable}
    {named : Std.TreeMap String Symbol} (h : Places symbols names named) {s : Symbol} {place : Nat}
    (hs : symbols[place]? = some s) :
    Places symbols (names.insert s.name place) (named.insert s.name s) := by
  intro name
  rw [Std.TreeMap.getElem?_insert, Std.TreeMap.getElem?_insert]
  by_cases hname : compare s.name name = .eq
  · rw [if_pos hname, if_pos hname]
    exact Or.inr ⟨place, s, rfl, hs, rfl⟩
  · rw [if_neg hname, if_neg hname]
    exact h name

/-- Exposing symbols by their places is exposing them, one after another. -/
theorem places_expose {before symbols : List Symbol} {names : NameTable}
    {named : Std.TreeMap String Symbol} (h : Places (before ++ symbols) names named) :
    Places (before ++ symbols) (expose names before.length symbols).names
      ((symbols.filter Symbol.isExposed).foldl (fun named s => named.insert s.name s) named) := by
  induction symbols generalizing before names named with
  | nil => exact h
  | cons s symbols ih =>
    -- the symbols behind `s` are exposed with `s` among those before them
    have hsplit : before ++ s :: symbols = before ++ [s] ++ symbols := by simp
    have hlength : before.length + 1 = (before ++ [s]).length := by simp
    rw [expose, hlength]
    by_cases hexposed : s.isExposed = true
    · have hplace : (before ++ s :: symbols)[before.length]? = some s := by simp
      have hinsert := h.insert hplace
      rw [hsplit] at hinsert
      rw [if_pos hexposed, List.filter_cons_of_pos hexposed, List.foldl_cons, hsplit]
      exact ih hinsert
    · rw [hsplit] at h
      rw [if_neg hexposed, List.filter_cons_of_neg hexposed, hsplit]
      exact ih h

theorem places_exposedNames (symbols : List Symbol) :
    Places symbols (exposedNames symbols)
      ((symbols.filter Symbol.isExposed).foldl (fun named s => named.insert s.name s) ∅) := by
  have hempty : Places ([] ++ symbols) ∅ ∅ := fun name =>
    Or.inl ⟨Std.TreeMap.getElem?_emptyc, Std.TreeMap.getElem?_emptyc⟩
  exact places_expose hempty

/-- The names of an image are those of its symbols. -/
theorem names_of_parse {img : Image} (h : parse image options = .ok img) :
    img.names = exposedNames img.symbols.toList := by
  obtain ⟨_, _, _, _, _, -, -, -, -, -, rfl⟩ := parse_eq_ok_iff.1 h
  rfl

/-- Only symbols are exposed by a log. -/
theorem filterMap_exposed?_log (img : Image) :
    img.log.filterMap Event.exposed? = img.symbols.toList.filter Symbol.isExposed := by
  have hcommands : (img.commands.map Event.commandDecoded).filterMap Event.exposed? = [] := by
    simp [List.filterMap_map, Function.comp_def, Event.exposed?]
  have hsegments : (img.segments.flatMap fun s =>
      Event.segmentBuilt s :: s.sections.map .sectionBuilt).filterMap Event.exposed? = [] := by
    simp [List.filterMap_flatMap, List.filterMap_cons, List.filterMap_map, Function.comp_def,
      Event.exposed?]
  rw [log, List.filterMap_append, List.filterMap_append, hcommands, hsegments, List.filterMap_map]
  exact List.filterMap_some ..

/-- The log exposes the names of the image. -/
theorem places_replay {img : Image} (h : parse image options = .ok img) :
    Places img.symbols.toList img.names (replay img.log) := by
  rw [replay, filterMap_exposed?_log, names_of_parse h]
  exact places_exposedNames _

/-- A name has the symbol in the log that it has in the image. -/
theorem getElem?_replay {img : Image} (h : parse image options = .ok img) (name : String) :
    (replay img.log)[name]? = img.symbol? name := by
  rw [symbol?]
  rcases places_replay h name with ⟨hnone, hnamed⟩ | ⟨place, s, hplace, hs, hnamed⟩
  · rw [hnone, hnamed]
    rfl
  · rw [hplace, hnamed, Option.bind_some, ← Array.getElem?_toList, hs]

/-- A map that has the symbols of the exposed names lists them as the image does, in the order of
their names. -/
theorem toList_eq_namedSymbols {img : Image} {named : Std.TreeMap String Symbol}
    (h : ∀ name, named[name]? = img.symbol? name) : named.toList = img.namedSymbols := by
  have hequiv : named.Equiv (img.names.filterMap fun _ place => img.symbols[place]?) := by
    refine Std.TreeMap.Equiv.of_forall_constGet?_eq fun name => ?_
    rw [Std.TreeMap.getElem?_filterMap']
    exact h name
  rw [hequiv.toList_eq, Std.TreeMap.toList_filterMap]
  rfl

/-- The log exposes the named symbols of the image, in the order of their names. -/
theorem toList_replay {img : Image} (h : parse image options = .ok img) :
    (replay img.log).toList = img.namedSymbols :=
  toList_eq_namedSymbols (getElem?_replay h)

/-- **The event log replays the image.**  A building that succeeds has published the log of its
image, from which the names of the image can be had again; one that fails has published what was
complete at the place where it failed. -/
theorem events_build (options : Options) (image : ByteArray) :
    (∀ img, (build options image).result = .ok img →
      (build options image).events = img.log ∧
        (∀ name, (replay (build options image).events)[name]? = img.symbol? name) ∧
        (replay (build options image).events).toList = img.namedSymbols) ∧
    ∀ e events, FailsAt options image e events ↔
      (build options image).result = .error e ∧ (build options image).events = events := by
  constructor
  · intro img h
    rw [events_of_ok h]
    exact ⟨rfl, getElem?_replay h, toList_replay h⟩
  · intro e events
    exact failsAt_iff

/-- Whether a given file is refused can be decided by reading the file. -/
theorem parse_eq_error_of_check {e : Error}
    (h : (match parse image options with
      | .error e' => decide (e' = e)
      | .ok _ => false) = true) : parse image options = .error e := by
  cases hparse : parse image options with
  | error e' =>
    rw [hparse] at h
    rw [of_decide_eq_true h]
  | ok img =>
    rw [hparse] at h
    cases h

theorem threeSymbols_events :
    (∃ img, (build {} (threeSymbols 1)).result = .ok img ∧
      (build {} (threeSymbols 1)).events = img.log ∧
      (replay (build {} (threeSymbols 1)).events)["b"]? = img.symbol? "b" ∧
      (img.symbol? "b").map Symbol.value = some 0x1004) ∧
    ∃ events, FailsAt { strictSections := true } (threeSymbols 2) (.sectionOutOfRange "b" 2 1) events ∧
      events.map Event.name =
        ["macho_command_decoded", "macho_command_decoded", "segment_materialized",
          "section_materialized"] := by
  obtain ⟨img, himg, hvalue⟩ : ∃ img, parse (threeSymbols 1) = .ok img ∧
      (img.symbol? "b").map Symbol.value = some 0x1004 := by
    apply exists_of_parse_check
    decide +kernel
  have herror : (build { strictSections := true } (threeSymbols 2)).result =
      .error (.sectionOutOfRange "b" 2 1) := by
    apply parse_eq_error_of_check
    decide +kernel
  have hnames : (build { strictSections := true } (threeSymbols 2)).events.map Event.name =
      ["macho_command_decoded", "macho_command_decoded", "segment_materialized",
        "section_materialized"] := by
    decide +kernel
  obtain ⟨hlog, hreplay, -⟩ := (events_build {} (threeSymbols 1)).1 img himg
  exact ⟨⟨img, himg, hlog, hreplay "b", hvalue⟩, _,
    ((events_build { strictSections := true } (threeSymbols 2)).2 _ _).2 ⟨herror, rfl⟩, hnames⟩

end Image

end MachImage
