import MachImage.Proofs.Image.Symbols

/-!
# Images under options

What is read of an image beside its commands is up to the options.  Reading bind
streams refuses the images with a stream that is outside of the file or that is
not well formed, and adds the bindings to the others (`Image.AddsBindings`).
Reading the contents of segments refuses the images with a segment that is
outside of the file, and adds the contents to the others (`Image.AddsContents`).
Nothing else depends on these options (`Image.parse_options`).

Bindings are compared on the walk over the commands and contents on the table of
segments; the stages that follow look at neither.
-/

namespace MachImage

variable {options : Options} {image : ByteArray}

/-! ## What the stages look at in commands -/

namespace Command

@[simp] theorem segment?_withoutBindings (c : Command) : c.withoutBindings.segment? = c.segment? := by
  rcases c with ⟨h, body⟩
  cases body <;> rfl

@[simp] theorem symtab?_withoutBindings (c : Command) : c.withoutBindings.symtab? = c.symtab? := by
  rcases c with ⟨h, body⟩
  cases body <;> rfl

@[simp] theorem dysymtab?_withoutBindings (c : Command) :
    c.withoutBindings.dysymtab? = c.dysymtab? := by
  rcases c with ⟨h, body⟩
  cases body <;> rfl

@[simp] theorem dylib?_withoutBindings (c : Command) : c.withoutBindings.dylib? = c.dylib? := by
  rcases c with ⟨h, body⟩
  cases body <;> rfl

@[simp] theorem loadsLibrary_withoutBindings (c : Command) :
    c.withoutBindings.loadsLibrary = c.loadsLibrary := rfl

end Command

namespace Image

theorem filterMap_segment?_withoutBindings (commands : List Command) :
    (commands.map Command.withoutBindings).filterMap Command.segment? =
      commands.filterMap Command.segment? := by
  rw [List.filterMap_map]
  exact congrArg (List.filterMap · commands) (funext Command.segment?_withoutBindings)

theorem tableEntries_withoutBindings (commands : List Command) :
    tableEntries (commands.map Command.withoutBindings) = tableEntries commands := by
  simp [tableEntries, List.findSome?_map, Function.comp_def]

theorem indirectTable_withoutBindings (commands : List Command) :
    indirectTable (commands.map Command.withoutBindings) = indirectTable commands := by
  simp [indirectTable, List.findSome?_map, Function.comp_def]

theorem librariesOf_withoutBindings (header : Header) (commands : List Command) :
    librariesOf header (commands.map Command.withoutBindings) = librariesOf header commands := by
  simp [librariesOf, loadedLibraries, List.filter_map, List.filterMap_map, Function.comp_def]

/-! ## Images with and without bindings -/

/-- An image without the bindings of its commands. -/
def withoutBindings (img : Image) : Image :=
  { img with commands := img.commands.map Command.withoutBindings }

theorem ofStages_withoutBindings {walk bare : Walk}
    (hcommands : bare.commands = walk.commands.map Command.withoutBindings)
    (hskipped : bare.skipped = walk.skipped) (header : Header) (table : SegmentTable)
    (libraries : List String) (symbols : List Symbol) :
    ofStages header bare table libraries symbols =
      (ofStages header walk table libraries symbols).withoutBindings := by
  unfold ofStages withoutBindings
  rw [hcommands, hskipped, indirectTable_withoutBindings]

/-- The stages after the commands do not look at bindings. -/
theorem ofWalk_withoutBindings {walk bare : Walk}
    (hcommands : bare.commands = walk.commands.map Command.withoutBindings)
    (hskipped : bare.skipped = walk.skipped) (header : Header) :
    ofWalk { options with bindInfo := false } image header bare =
      withoutBindings <$> ofWalk { options with bindInfo := true } image header walk := by
  have hsegments : buildSegments { options with bindInfo := false } image bare.commands =
      buildSegments { options with bindInfo := true } image walk.commands := by
    unfold buildSegments
    rw [hcommands, filterMap_segment?_withoutBindings]
    exact buildSegments_congr (by rfl) image walk.commands
  unfold ofWalk
  rw [hsegments, map_bind]
  refine bind_congr fun table => ?_
  dsimp only
  rw [result_buildSymbols, result_buildSymbols, hcommands, librariesOf_withoutBindings,
    tableEntries_withoutBindings, map_bind]
  refine bind_congr fun symbols => ?_
  rw [ofStages_withoutBindings hcommands hskipped]
  rfl

theorem commands_eq_of_ofWalk {header : Header} {walk : Walk} {img : Image}
    (h : ofWalk options image header walk = .ok img) : img.commands = walk.commands := by
  obtain ⟨table, -, h⟩ := bind_eq_ok_iff.1 h
  obtain ⟨symbols, -, h⟩ := bind_eq_ok_iff.1 h
  cases h
  rfl

/-- What reading bind streams adds to the result of a parse: `on` is the result with the streams and
`off` is the one without them. -/
structure AddsBindings (image : ByteArray) (on off : Except Error Image) : Prop where
  /-- Streams are all that an image can be refused for. -/
  succeeds_iff : (∃ img, on = .ok img) ↔
    ∃ img, off = .ok img ∧ ∀ c ∈ img.commands, c.body.StreamsAccepted image
  /-- Bindings are all that is added, and they are those of the streams. -/
  adds : ∀ img, on = .ok img →
    off = .ok img.withoutBindings ∧ ∀ c ∈ img.commands, c.body.StreamsRead image

theorem ofWalk_run_withoutBindings {count start : Nat}
    (h : (Walk.run { options with bindInfo := true } image count start).failure = none)
    (header : Header) :
    ofWalk { options with bindInfo := false } image header
        (Walk.run { options with bindInfo := false } image count start) =
      withoutBindings <$> ofWalk { options with bindInfo := true } image header
        (Walk.run { options with bindInfo := true } image count start) := by
  have hbare : ({ options with bindInfo := false } : Options).bindInfo = false := rfl
  obtain ⟨-, hentries, -, -⟩ := Walk.run_withoutBindings rfl hbare h
  refine ofWalk_withoutBindings ?_ ?_ header
  · unfold Walk.commands
    rw [hentries]
    exact Entry.filterMap_command?_withoutBindings _
  · unfold Walk.skipped
    rw [hentries]
    exact Entry.filterMap_skipped?_withoutBindings _

/-- An image that is read with its bindings is also read without them. -/
theorem parse_withoutBindings {img : Image}
    (h : parse image { options with bindInfo := true } = .ok img) :
    parse image { options with bindInfo := false } = .ok img.withoutBindings ∧
      (∀ c ∈ img.withoutBindings.commands, c.body.StreamsAccepted image) ∧
      ∀ c ∈ img.commands, c.body.StreamsRead image := by
  have hbare : ({ options with bindInfo := false } : Options).bindInfo = false := rfl
  obtain ⟨header, start, hheader, hfailure, himg⟩ := parse_eq_ok_iff_ofWalk.1 h
  obtain ⟨hfailure', -, haccepted, hread⟩ := Walk.run_withoutBindings rfl hbare hfailure
  have hoff := ofWalk_run_withoutBindings hfailure header
  rw [himg] at hoff
  refine ⟨parse_eq_ok_iff_ofWalk.2 ⟨header, start, hheader, hfailure', hoff⟩, ?_, ?_⟩
  · intro c hc
    rw [commands_eq_of_ofWalk hoff] at hc
    exact haccepted _ (Walk.mem_commands_iff.1 hc)
  · intro c hc
    rw [commands_eq_of_ofWalk himg] at hc
    exact hread _ (Walk.mem_commands_iff.1 hc)

/-- An image that is read without bindings is also read with them if its streams are accepted. -/
theorem exists_parse_of_accepted {img : Image}
    (h : parse image { options with bindInfo := false } = .ok img)
    (haccepted : ∀ c ∈ img.commands, c.body.StreamsAccepted image) :
    ∃ full, parse image { options with bindInfo := true } = .ok full := by
  have hfull : ({ options with bindInfo := true } : Options).bindInfo = true := rfl
  obtain ⟨header, start, hheader, hfailure, himg⟩ := parse_eq_ok_iff_ofWalk.1 h
  rw [commands_eq_of_ofWalk himg] at haccepted
  have hentries : ∀ e ∈ (Walk.run { options with bindInfo := false } image
      header.commandCount.toNat start).entries, e.StreamsAccepted image := by
    intro e he
    cases e with
    | decoded c => exact haccepted c (Walk.mem_commands_iff.2 he)
    | skipped c => trivial
  have hfailure' := Walk.failure_run_of_accepted hfull rfl hfailure hentries
  -- the stages after the walk succeed with bindings because they do without them
  rw [ofWalk_run_withoutBindings hfailure'] at himg
  cases hon : ofWalk { options with bindInfo := true } image header
      (Walk.run { options with bindInfo := true } image header.commandCount.toNat start) with
  | error e =>
    rw [hon] at himg
    cases himg
  | ok full => exact ⟨full, parse_eq_ok_iff_ofWalk.2 ⟨header, start, hheader, hfailure', hon⟩⟩

theorem addsBindings (options : Options) (image : ByteArray) :
    AddsBindings image (parse image { options with bindInfo := true })
      (parse image { options with bindInfo := false }) where
  succeeds_iff := by
    constructor
    · rintro ⟨img, himg⟩
      obtain ⟨hoff, haccepted, -⟩ := parse_withoutBindings himg
      exact ⟨_, hoff, haccepted⟩
    · rintro ⟨img, himg, haccepted⟩
      exact exists_parse_of_accepted himg haccepted
  adds := by
    intro img himg
    obtain ⟨hoff, -, hread⟩ := parse_withoutBindings himg
    exact ⟨hoff, hread⟩

/-! ## Images with and without the contents of segments -/

/-- An image without the contents of its segments. -/
def withoutContents (img : Image) : Image :=
  { img with segments := img.segments.map Segment.withoutContents }

/-- What reading the contents of segments adds to the result of a parse: `on` is the result with
the contents and `off` is the one without them. -/
structure AddsContents (image : ByteArray) (on off : Except Error Image) : Prop where
  /-- Contents are all that an image can be refused for. -/
  succeeds_iff : (∃ img, on = .ok img) ↔
    ∃ img, off = .ok img ∧
      ∀ c ∈ img.commands.filterMap Command.segment?, c.ContentsInside image
  /-- Contents are all that is added, and they are the bytes that the segments declare. -/
  adds : ∀ img, on = .ok img →
    off = .ok img.withoutContents ∧
      img.segments.map Segment.contents =
        (img.commands.filterMap Command.segment?).map (SegmentCommand.contentsIn image)
  /-- An image is refused for the first segment that is not inside the file. -/
  refuses : ∀ img, off = .ok img →
    (∃ c ∈ img.commands.filterMap Command.segment?, ¬ c.ContentsInside image) →
    ∃ before c after, img.commands.filterMap Command.segment? = before ++ c :: after ∧
      (∀ d ∈ before, d.ContentsInside image) ∧ ¬ c.ContentsInside image ∧
      on = .error (c.contentsFailure image)

/-- Symbols cannot refuse an image whose sections are not strict. -/
theorem ofWalk_of_lenient (hlenient : options.strictSections = false) {header : Header} {walk : Walk}
    {table : SegmentTable} (h : (buildSegments options image walk.commands).result = .ok table) :
    ofWalk options image header walk =
      let libraries := librariesOf header walk.commands
      .ok (ofStages header walk table libraries ((tableEntries walk.commands).map
        (targetsOf options header table.places libraries).symbolOf)) := by
  unfold ofWalk
  rw [h]
  show (buildSymbols (targetsOf options header table.places _) walk.commands).result >>= _ = _
  rw [result_buildSymbols, Targets.mapM_resolve_of_lenient hlenient]
  rfl

/-- Segments that are all inside the file make an image with their contents and without. -/
theorem ofWalk_of_inside (options : Options) (header : Header) {walk : Walk}
    (h : ∀ c ∈ walk.commands.filterMap Command.segment?, c.ContentsInside image) :
    ∃ img, ofWalk { options with segmentData := true, strictSections := false } image header walk =
        .ok img ∧
      ofWalk { options with segmentData := false, strictSections := false } image header walk =
        .ok img.withoutContents ∧
      img.segments.map Segment.contents =
        (walk.commands.filterMap Command.segment?).map (SegmentCommand.contentsIn image) := by
  have hfull : ({ options with segmentData := true, strictSections := false } : Options).segmentData =
      true := rfl
  have hbare : ({ options with segmentData := false, strictSections := false } :
      Options).segmentData = false := rfl
  obtain ⟨hfailure, hsegments, hcontents, hplaces⟩ :=
    SegmentTable.build_of_inside hfull hbare 0 1 h
  have hon := result_buildSegments_eq_ok_iff.2 ⟨hfailure, rfl⟩
  have hnone : (SegmentTable.build { options with segmentData := false, strictSections := false }
      image 0 1 (walk.commands.filterMap Command.segment?)).failure = none :=
    SegmentTable.failure_build_of_not_reads hbare 0 1 _
  have hoff := result_buildSegments_eq_ok_iff.2 ⟨hnone, rfl⟩
  refine ⟨_, ofWalk_of_lenient rfl hon, ?_, hcontents⟩
  rw [ofWalk_of_lenient rfl hoff]
  -- contents apart, both tables have the same segments and places, and symbols refer to no more
  unfold ofStages
  rw [← hsegments, ← hplaces]
  rfl

theorem ofWalk_of_outside (header : Header) {walk : Walk} {before after : List SegmentCommand}
    {c : SegmentCommand} (hdata : options.segmentData = true)
    (hsplit : walk.commands.filterMap Command.segment? = before ++ c :: after)
    (hbefore : ∀ d ∈ before, d.ContentsInside image) (hc : ¬ c.ContentsInside image) :
    ofWalk options image header walk = .error (c.contentsFailure image) := by
  have hfailure : (SegmentTable.build options image 0 1 (before ++ c :: after)).failure =
      some (c.contentsFailure image) :=
    SegmentTable.failure_build_of_outside hdata 0 1 hbefore hc
  have hsegments : (buildSegments options image walk.commands).result =
      .error (c.contentsFailure image) := by
    show Report.resultOf (SegmentTable.build options image 0 1 _).failure _ = _
    rw [hsplit, hfailure]
    rfl
  unfold ofWalk
  rw [hsegments]
  rfl

/-- Walks do not look at contents. -/
theorem run_of_contents (options : Options) (image : ByteArray) (count start : Nat) :
    Walk.run { options with segmentData := false, strictSections := false } image count start =
      Walk.run { options with segmentData := true, strictSections := false } image count start :=
  Walk.run_congr (by rfl) image count start

/-- An image that is read with its contents is also read without them. -/
theorem parse_withoutContents {img : Image}
    (h : parse image { options with segmentData := true, strictSections := false } = .ok img) :
    parse image { options with segmentData := false, strictSections := false } =
        .ok img.withoutContents ∧
      (∀ c ∈ img.commands.filterMap Command.segment?, c.ContentsInside image) ∧
      img.segments.map Segment.contents =
        (img.commands.filterMap Command.segment?).map (SegmentCommand.contentsIn image) := by
  obtain ⟨header, start, hheader, hfailure, himg⟩ := parse_eq_ok_iff_ofWalk.1 h
  rw [commands_eq_of_ofWalk himg]
  by_cases hinside : ∀ c ∈ (Walk.run { options with segmentData := true, strictSections := false }
      image header.commandCount.toNat start).commands.filterMap Command.segment?,
      c.ContentsInside image
  · obtain ⟨img', hon, hoff, hcontents⟩ := ofWalk_of_inside options header hinside
    rw [hon] at himg
    cases himg
    rw [← run_of_contents] at hfailure hoff
    exact ⟨parse_eq_ok_iff_ofWalk.2 ⟨header, start, hheader, hfailure, hoff⟩, hinside, hcontents⟩
  · push Not at hinside
    obtain ⟨before, c, after, hsplit, hbefore, hc⟩ := SegmentTable.exists_first_outside hinside
    rw [ofWalk_of_outside header rfl hsplit hbefore hc] at himg
    cases himg

theorem addsContents (options : Options) (image : ByteArray) :
    AddsContents image
      (parse image { options with segmentData := true, strictSections := false })
      (parse image { options with segmentData := false, strictSections := false }) where
  succeeds_iff := by
    constructor
    · rintro ⟨img, himg⟩
      obtain ⟨hoff, hinside, -⟩ := parse_withoutContents himg
      exact ⟨_, hoff, hinside⟩
    · rintro ⟨img, himg, hinside⟩
      obtain ⟨header, start, hheader, hfailure, himg⟩ := parse_eq_ok_iff_ofWalk.1 himg
      rw [commands_eq_of_ofWalk himg, run_of_contents] at hinside
      obtain ⟨full, hon, -⟩ := ofWalk_of_inside options header hinside
      rw [run_of_contents] at hfailure
      exact ⟨full, parse_eq_ok_iff_ofWalk.2 ⟨header, start, hheader, hfailure, hon⟩⟩
  adds := by
    intro img himg
    obtain ⟨hoff, -, hcontents⟩ := parse_withoutContents himg
    exact ⟨hoff, hcontents⟩
  refuses := by
    intro img himg houtside
    obtain ⟨header, start, hheader, hfailure, himg⟩ := parse_eq_ok_iff_ofWalk.1 himg
    obtain ⟨before, c, after, hsplit, hbefore, hc⟩ := SegmentTable.exists_first_outside houtside
    refine ⟨before, c, after, hsplit, hbefore, hc, ?_⟩
    rw [commands_eq_of_ofWalk himg, run_of_contents] at hsplit
    rw [run_of_contents] at hfailure
    rw [parse_of_run hheader hfailure]
    exact ofWalk_of_outside header rfl hsplit hbefore hc

/-- **Options add or take away their own part of an image and nothing else.**  Bindings are added if
their streams are inside the file and well formed, and contents if all segments are inside the
file; the rest of the image is the same, whatever the other options are. -/
theorem parse_options (options : Options) (image : ByteArray) :
    AddsBindings image (parse image { options with bindInfo := true })
        (parse image { options with bindInfo := false }) ∧
      AddsContents image
        (parse image { options with segmentData := true, strictSections := false })
        (parse image { options with segmentData := false, strictSections := false }) :=
  ⟨addsBindings options image, addsContents options image⟩

/-- An image with a segment of a given size in the file and a bind stream with one binding. -/
def boundSegment (fileSize : UInt8) : ByteArray := ⟨#[
  0xCE, 0xFA, 0xED, 0xFE, 12, 0, 0, 0, 9, 0, 0, 0, 2, 0, 0, 0, 2, 0, 0, 0, 104, 0, 0, 0, 0, 0, 0, 0,
  1, 0, 0, 0, 56, 0, 0, 0, 0x5F, 0x5F, 0x44, 0, 0, 0, 0, 0, 0, 0, 0, 0, 0, 0, 0, 0,
  0, 16, 0, 0, 0, 16, 0, 0, 4, 0, 0, 0, fileSize, 0, 0, 0, 3, 0, 0, 0, 3, 0, 0, 0,
  0, 0, 0, 0, 0, 0, 0, 0,
  0x22, 0, 0, 0, 48, 0, 0, 0, 0, 0, 0, 0, 0, 0, 0, 0, 132, 0, 0, 0, 8, 0, 0, 0,
  0, 0, 0, 0, 0, 0, 0, 0, 0, 0, 0, 0, 0, 0, 0, 0, 0, 0, 0, 0, 0, 0, 0, 0,
  0x11, 0x40, 0x61, 0, 0x70, 0, 0x90, 0]⟩

theorem boundSegment_options :
    (∃ img, parse (boundSegment 8) = .ok img ∧
      parse (boundSegment 8) { bindInfo := false } = .ok img.withoutBindings ∧
      parse (boundSegment 8) { segmentData := false } = .ok img.withoutContents ∧
      img.segments.map Segment.contents = [[12, 0, 0, 0, 9, 0, 0, 0]] ∧
      ∃ c ∈ img.commands, c.withoutBindings ≠ c) ∧
    parse (boundSegment 255) = .error (.bufferTooSmall 259 140) := by
  obtain ⟨img, himg, hsegments, hbindings⟩ :
      ∃ img, parse (boundSegment 8) = .ok img ∧
        img.segments.map Segment.contents = [[12, 0, 0, 0, 9, 0, 0, 0]] ∧
        ∃ c ∈ img.commands, c.withoutBindings ≠ c := by
    apply exists_of_parse_check
    decide +kernel
  obtain ⟨hbind, hcontents⟩ := parse_options {} (boundSegment 8)
  refine ⟨⟨img, himg, (hbind.adds img himg).1, (hcontents.adds img himg).1, hsegments, hbindings⟩, ?_⟩
  obtain ⟨bare, hbare, houtside, hfailure⟩ :
      ∃ img, parse (boundSegment 255) { segmentData := false } = .ok img ∧
        (∃ c ∈ img.commands.filterMap Command.segment?, ¬ c.ContentsInside (boundSegment 255)) ∧
        ∀ c ∈ img.commands.filterMap Command.segment?,
          c.contentsFailure (boundSegment 255) = .bufferTooSmall 259 140 := by
    apply exists_of_parse_check
    decide +kernel
  obtain ⟨before, c, after, hsplit, -, -, herror⟩ :=
    (parse_options {} (boundSegment 255)).2.refuses bare hbare houtside
  rw [hfailure c (by simp [hsplit])] at herror
  exact herror

end Image

end MachImage
