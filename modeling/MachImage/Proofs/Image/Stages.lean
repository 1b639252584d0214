import MachImage.Image.Build
import MachImage.Proofs.Header

/-!
# The stages of an image

An image is built in stages, and each stage has to succeed.
`Image.parse_eq_ok_iff` takes a successful parse apart into the results of its
stages and says what the image is made of.

`Image.parse_eq` gives the result of any parse as that of its stages, the
header, the commands and the rest (`Image.ofWalk`), so that two parses are
compared stage by stage.
-/

namespace MachImage

variable {α β : Type}

theorem bind_eq_ok_iff {x : Except Error α} {f : α → Except Error β} {b : β} :
    x >>= f = .ok b ↔ ∃ a, x = .ok a ∧ f a = .ok b := by
  cases x with
  | error e =>
    constructor
    · intro h
      cases h
    · rintro ⟨a, h, -⟩
      cases h
  | ok a =>
    constructor
    · intro h
      exact ⟨a, rfl, h⟩
    · rintro ⟨a', h, hf⟩
      cases h
      exact hf

namespace Report

/-- The result of two stages is that of the first and then that of the second. -/
theorem result_bind (r : Report α) (f : α → Report β) :
    (r >>= f).result = r.result >>= fun a => (f a).result := by
  rcases r with ⟨_ | a, events, notes⟩
  · rfl
  · rfl

theorem result_bind_eq_ok_iff {r : Report α} {f : α → Report β} {b : β} :
    (r >>= f).result = .ok b ↔ ∃ a, r.result = .ok a ∧ (f a).result = .ok b := by
  rw [result_bind]
  exact bind_eq_ok_iff

theorem resultOf_eq_ok_iff {failure : Option Error} {a b : α} :
    resultOf failure a = .ok b ↔ failure = none ∧ b = a := by
  cases failure with
  | none => simp [resultOf, eq_comm]
  | some e => simp [resultOf]

end Report

namespace Image

variable {options : Options} {image : ByteArray}

/-- The header is read from the start of the file, and the commands start where it ends. -/
theorem result_readHeader_eq_ok_iff {header : Header} {start : Nat} :
    (readHeader image).result = .ok (header, start) ↔ Header.read.Yields image 0 header start := by
  unfold readHeader Reader.Yields
  cases h : (Header.read image 0).result with
  | error e => simp [h, Except.map]
  | ok header' => simp [h, Except.map]

theorem result_readHeader_eq_error_iff {e : Error} :
    (readHeader image).result = .error e ↔ (Header.read image 0).result = .error e := by
  unfold readHeader
  cases h : (Header.read image 0).result with
  | error e' => simp [h, Except.map]
  | ok header => simp [h, Except.map]

/-- The load commands are read exactly if the walk over them does not fail. -/
theorem result_readCommands_eq_ok_iff {count start : Nat} {walk : Walk} :
    (readCommands options image count start).result = .ok walk ↔
      (Walk.run options image count start).failure = none ∧
        walk = Walk.run options image count start :=
  Report.resultOf_eq_ok_iff

/-- What symbols can refer to in an image with the given parts. -/
def targetsOf (options : Options) (header : Header) (places : List (Nat × Nat))
    (libraries : List String) : Targets where
  strictSections := options.strictSections
  sectionCount := places.length
  twoLevel := header.isTwoLevel
  libraries := libraries

/-- The image of the results of the stages. -/
def ofStages (header : Header) (walk : Walk) (table : SegmentTable) (libraries : List String)
    (symbols : List Symbol) : Image where
  header := header
  commands := walk.commands
  skipped := walk.skipped
  segments := table.segments
  places := table.places
  libraries := libraries
  symbols := symbols.toArray
  names := exposedNames symbols
  indirectSymbols := (indirectTable walk.commands).toArray

/-- **A file is an image exactly if every stage succeeds**, and then the image is made of their
results. -/
theorem parse_eq_ok_iff {img : Image} :
    parse image options = .ok img ↔
      ∃ header start table libraries symbols,
        (readHeader image).result = .ok (header, start) ∧
        (Walk.run options image header.commandCount.toNat start).failure = none ∧
        (buildSegments options image
          (Walk.run options image header.commandCount.toNat start).commands).result =
            .ok table ∧
        (listLibraries header
          (Walk.run options image header.commandCount.toNat start).commands).result =
            .ok libraries ∧
        (buildSymbols (targetsOf options header table.places libraries)
          (Walk.run options image header.commandCount.toNat start).commands).result =
            .ok symbols ∧
        img = ofStages header (Walk.run options image header.commandCount.toNat start) table
          libraries symbols := by
  rw [parse, build, Report.result_bind_eq_ok_iff]
  constructor
  · rintro ⟨⟨header, start⟩, hheader, h⟩
    obtain ⟨walk, hwalk, h⟩ := Report.result_bind_eq_ok_iff.1 h
    obtain ⟨hfailure, rfl⟩ := result_readCommands_eq_ok_iff.1 hwalk
    obtain ⟨table, hsegments, h⟩ := Report.result_bind_eq_ok_iff.1 h
    obtain ⟨libraries, hlibraries, h⟩ := Report.result_bind_eq_ok_iff.1 h
    obtain ⟨symbols, hsymbols, h⟩ := Report.result_bind_eq_ok_iff.1 h
    cases h
    exact ⟨header, start, table, libraries, symbols, hheader, hfailure, hsegments, hlibraries,
      hsymbols, rfl⟩
  · rintro ⟨header, start, table, libraries, symbols, hheader, hfailure, hsegments, hlibraries,
      hsymbols, rfl⟩
    refine ⟨(header, start), hheader, Report.result_bind_eq_ok_iff.2
      ⟨_, result_readCommands_eq_ok_iff.2 ⟨hfailure, rfl⟩, ?_⟩⟩
    refine Report.result_bind_eq_ok_iff.2 ⟨table, hsegments, ?_⟩
    refine Report.result_bind_eq_ok_iff.2 ⟨libraries, hlibraries, ?_⟩
    exact Report.result_bind_eq_ok_iff.2 ⟨symbols, hsymbols, rfl⟩

/-- The libraries that the symbols of an image refer to by place. -/
def librariesOf (header : Header) (commands : List Command) : List String :=
  if header.isTwoLevel then loadedLibraries commands else []

theorem result_listLibraries (header : Header) (commands : List Command) :
    (listLibraries header commands).result = .ok (librariesOf header commands) := by
  unfold listLibraries librariesOf
  by_cases htwo : header.isTwoLevel = true
  · rw [if_pos htwo, if_pos htwo]
  · rw [if_neg htwo, if_neg htwo]
    rfl

/-- The image of a walk over its commands, or why there is none. -/
def ofWalk (options : Options) (image : ByteArray) (header : Header) (walk : Walk) :
    Except Error Image := do
  let table ← (buildSegments options image walk.commands).result
  let libraries := librariesOf header walk.commands
  let symbols ←
    (buildSymbols (targetsOf options header table.places libraries) walk.commands).result
  return ofStages header walk table libraries symbols

/-- A file is read in three stages: the header, the commands and what the commands say. -/
theorem parse_eq (image : ByteArray) (options : Options) :
    parse image options = (do
      let (header, start) ← (readHeader image).result
      let walk ← (readCommands options image header.commandCount.toNat start).result
      ofWalk options image header walk) := by
  unfold parse build
  rw [Report.result_bind]
  refine bind_congr fun p => ?_
  rw [Report.result_bind]
  refine bind_congr fun walk => ?_
  unfold ofWalk
  rw [Report.result_bind]
  refine bind_congr fun table => ?_
  rw [Report.result_bind, result_listLibraries]
  exact Report.result_bind _ _

/-- Once its header and its commands are read, the commands decide what a file is read as. -/
theorem parse_of_run {header : Header} {start : Nat}
    (hheader : (readHeader image).result = .ok (header, start))
    (hfailure : (Walk.run options image header.commandCount.toNat start).failure = none) :
    parse image options =
      ofWalk options image header (Walk.run options image header.commandCount.toNat start) := by
  have hcommands : (readCommands options image header.commandCount.toNat start).result =
      .ok (Walk.run options image header.commandCount.toNat start) :=
    result_readCommands_eq_ok_iff.2 ⟨hfailure, rfl⟩
  rw [parse_eq, hheader]
  show (readCommands options image header.commandCount.toNat start).result >>= _ = _
  rw [hcommands]
  rfl

/-- A file is an image exactly if its commands are read and make an image. -/
theorem parse_eq_ok_iff_ofWalk {img : Image} :
    parse image options = .ok img ↔
      ∃ header start, (readHeader image).result = .ok (header, start) ∧
        (Walk.run options image header.commandCount.toNat start).failure = none ∧
        ofWalk options image header (Walk.run options image header.commandCount.toNat start) =
          .ok img := by
  constructor
  · intro h
    rw [parse_eq] at h
    obtain ⟨⟨header, start⟩, hheader, h⟩ := bind_eq_ok_iff.1 h
    obtain ⟨walk, hwalk, h⟩ := bind_eq_ok_iff.1 h
    obtain ⟨hfailure, rfl⟩ := result_readCommands_eq_ok_iff.1 hwalk
    exact ⟨header, start, hheader, hfailure, h⟩
  · rintro ⟨header, start, hheader, hfailure, h⟩
    rw [parse_of_run hheader hfailure, h]

/-- What is to be known of the image in a given file can be decided by reading the file. -/
theorem exists_of_parse_check {p : Image → Prop} [DecidablePred p]
    (h : (parse image options).toOption.any (fun img => p img) = true) :
    ∃ img, parse image options = .ok img ∧ p img := by
  cases hparse : parse image options with
  | error e =>
    rw [hparse] at h
    cases h
  | ok img =>
    rw [hparse] at h
    exact ⟨img, rfl, of_decide_eq_true h⟩

end Image

end MachImage
