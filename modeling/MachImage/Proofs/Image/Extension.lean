import MachImage.Proofs.Command.Confined
import MachImage.Proofs.Image.Stages

/-!
# Images and their beginnings

A file that is cut short is never taken for something else: bytes appended to a
file change nothing of what it is read as, an image or a failure, unless the
failure was that bytes are missing (`Image.parse_append`).  So no bounds check
lets through what a longer file would show to be different, and none is made
against the end of the file in place of the end of a table.

Every stage is compared on a file and on the file with more bytes: the header
(`Header.agrees_read`), the walk (`Walk.run_append`) and the contents of the
segments (`SegmentTable.build_append`).  The other stages do not look at the
file.
-/

namespace MachImage

/-- Whether the cause of a failure is that the file ends too early. -/
def Error.isShortage : Error → Bool
  | .tooShortForMagic _ | .bufferTooSmall .. => true
  | _ => false

/-- A failure for want of bytes. -/
abbrev Shortage (e : Error) : Prop := e.isShortage = true

variable {α β : Type} {options : Options} {image more : ByteArray} {pos : Nat}

theorem Comparable.append (image more : ByteArray) :
    Comparable Shortage image (image ++ more) where
  size_le := by
    rw [ByteArray.size_append]
    exact Nat.le_add_right _ _
  excuses := fun _ _ _ => rfl

/-! ## Results -/

/-- The second result is the first, unless the first is a failure for want of bytes. -/
def Persists (x y : Except Error α) : Prop := x = y ∨ ∃ e, x = .error e ∧ Shortage e

theorem Reader.Agrees.persists {r : Reader α}
    (h : r.Agrees Shortage image (image ++ more) pos) :
    Persists (r image pos).result (r (image ++ more) pos).result := by
  rcases h with heq | hshort
  · exact Or.inl (congrArg Outcome.result heq)
  · exact Or.inr hshort

theorem persists_bind {x y : Except Error α} {f g : α → Except Error β} (hx : Persists x y)
    (hf : ∀ a, Persists (f a) (g a)) : Persists (x >>= f) (y >>= g) := by
  rcases hx with rfl | ⟨e, rfl, hshort⟩
  · cases x with
    | error e => exact Or.inl rfl
    | ok a => exact hf a
  · exact Or.inr ⟨e, rfl, hshort⟩

/-! ## The header -/

theorem Header.agrees_validate :
    Header.validate.Agrees Shortage image (image ++ more) pos := by
  unfold Reader.Agrees Header.validate
  have hle := (Comparable.append image more).size_le
  by_cases hshort : image.size < pos + 4
  · right
    rw [if_pos hshort]
    exact ⟨_, rfl, rfl⟩
  · left
    rw [if_neg hshort, if_neg (by omega),
      (AgreeOn.append image more pos 4).window_eq (by omega)]

theorem Header.agrees_read (image more : ByteArray) (pos : Nat) :
    Header.read.Agrees Shortage image (image ++ more) pos := by
  unfold Header.read
  refine Reader.agrees_bind Header.agrees_validate fun _ _ _ => ?_
  refine Reader.agrees_bind (Reader.agrees_record (Comparable.append image more)
    (AgreeOn.append image more _ _)) fun v _ _ => ?_
  obtain ⟨magic, cpu, subtype, file, commandCount, commandBytes, flagBits, -⟩ := v
  refine Reader.agrees_bind (Reader.agrees_demand _ _) fun _ _ _ => ?_
  refine Reader.agrees_bind (Reader.agrees_demand _ _) fun _ _ _ => ?_
  refine Reader.agrees_bind (Reader.agrees_demand _ _) fun _ _ _ => ?_
  exact Reader.agrees_map (Reader.agrees_note _)

/-! ## The commands -/

namespace Entry

theorem agrees_readKnown (h : CommandHeader) :
    (readKnown options h).Agrees Shortage image (image ++ more) pos := by
  have hsize := Comparable.append image more
  unfold readKnown
  refine Reader.agrees_bind (Reader.agrees_demand _ _) fun shape _ _ => ?_
  refine Reader.agrees_bind (Reader.agrees_note _) fun _ _ _ => ?_
  refine Reader.agrees_seek_bind hsize ?_
  refine Reader.agrees_bind ?_ fun body _ _ => ?_
  · exact Command.agrees_readBody hsize (AgreeOn.append image more _ _) shape
      fun t _ => AgreeOn.append image more t.1 t.2
  · exact Reader.agrees_seek_bind hsize (Reader.agrees_pure _)

theorem agrees_readUnknown (c : SkippedCommand) :
    (readUnknown c).Agrees Shortage image (image ++ more) pos := by
  unfold readUnknown
  refine Reader.agrees_bind (Reader.agrees_note _) fun _ _ _ => ?_
  exact Reader.agrees_seek_bind (Comparable.append image more) (Reader.agrees_pure _)

theorem agrees_read (options : Options) (image more : ByteArray) (pos : Nat) :
    (Entry.read options).Agrees Shortage image (image ++ more) pos := by
  unfold Entry.read
  refine Reader.agrees_bind Reader.agrees_position fun offset _ _ => ?_
  refine Reader.agrees_bind (Reader.agrees_record (Comparable.append image more)
    (AgreeOn.append image more _ _)) fun v _ _ => ?_
  obtain ⟨raw, length, -⟩ := v
  refine Reader.agrees_unless fun _ => ?_
  cases (Coded.ofCode? raw : Option CommandId) with
  | none => exact agrees_readUnknown _
  | some id => exact agrees_readKnown _

end Entry

/-- A walk meets the same commands if more bytes follow, unless it fails for want of bytes. -/
theorem Walk.run_append (options : Options) (image more : ByteArray) (count start : Nat) :
    Walk.run options image count start = Walk.run options (image ++ more) count start ∨
      ∃ e, (Walk.run options image count start).failure = some e ∧ Shortage e := by
  induction count generalizing start with
  | zero => exact Or.inl rfl
  | succ count ih =>
    rw [run, run]
    rcases Entry.agrees_read options image more start with heq | ⟨e, he, hshort⟩
    · rw [← heq]
      rcases Entry.read options image start with ⟨e | entry, cursor, notes⟩
      · exact Or.inl rfl
      · rcases ih cursor with hrest | hshort
        · left
          dsimp only
          rw [hrest]
        · exact Or.inr hshort
    · right
      rcases houtcome : Entry.read options image start with ⟨e' | entry, cursor, notes⟩
      · rw [houtcome] at he
        cases he
        exact ⟨e, rfl, hshort⟩
      · rw [houtcome] at he
        cases he

/-! ## The contents of segments -/

theorem Segment.persists_readContents (options : Options) (image more : ByteArray)
    (c : SegmentCommand) :
    Persists (readContents options image c) (readContents options (image ++ more) c) := by
  have hsize := Comparable.append image more
  unfold readContents contentsReader
  by_cases hread : options.segmentData = true
  · rw [if_pos hread, if_pos hread]
    refine (Reader.agrees_seek_bind hsize ?_).persists
    exact Reader.agrees_bytes hsize (AgreeOn.append image more _ _)
  · rw [if_neg hread, if_neg hread]
    exact Or.inl rfl

/-- The segments of commands are the same if more bytes follow, unless the contents of one need
bytes that are missing. -/
theorem SegmentTable.build_append (options : Options) (image more : ByteArray)
    (position number : Nat) (cs : List SegmentCommand) :
    build options image position number cs = build options (image ++ more) position number cs ∨
      ∃ e, (build options image position number cs).failure = some e ∧ Shortage e := by
  induction cs generalizing position number with
  | nil => exact Or.inl rfl
  | cons c cs ih =>
    rw [build, build]
    rcases Segment.persists_readContents options image more c with heq | ⟨e, he, hshort⟩
    · rw [← heq]
      cases Segment.readContents options image c with
      | error e => exact Or.inl rfl
      | ok contents =>
        rcases ih (position + 1) (number + (Segment.ofCommand number c contents).sections.length) with
          hrest | ⟨e, he, hshort⟩
        · left
          dsimp only
          rw [hrest]
        · exact Or.inr ⟨e, he, hshort⟩
    · right
      rw [he]
      exact ⟨e, rfl, hshort⟩

/-! ## The image -/

namespace Image

theorem persists_resultOf {failure : Option Error} {a : α} (y : Except Error α)
    (h : ∃ e, failure = some e ∧ Shortage e) : Persists (Report.resultOf failure a) y := by
  obtain ⟨e, rfl, hshort⟩ := h
  exact Or.inr ⟨e, rfl, hshort⟩

theorem persists_readHeader (image more : ByteArray) :
    Persists (readHeader image).result (readHeader (image ++ more)).result := by
  unfold readHeader
  rcases Header.agrees_read image more 0 with heq | ⟨e, he, hshort⟩
  · left
    rw [heq]
  · right
    exact ⟨e, result_readHeader_eq_error_iff.2 he, hshort⟩

theorem persists_readCommands (options : Options) (image more : ByteArray) (count start : Nat) :
    Persists (readCommands options image count start).result
      (readCommands options (image ++ more) count start).result := by
  rcases Walk.run_append options image more count start with heq | hshort
  · left
    rw [readCommands, readCommands, heq]
  · exact persists_resultOf _ hshort

theorem persists_buildSegments (options : Options) (image more : ByteArray)
    (commands : List Command) :
    Persists (buildSegments options image commands).result
      (buildSegments options (image ++ more) commands).result := by
  rcases SegmentTable.build_append options image more 0 1
      (commands.filterMap Command.segment?) with heq | hshort
  · left
    rw [buildSegments, buildSegments, heq]
  · exact persists_resultOf _ hshort

/-- A file with more bytes behind it is read as it is without them, unless bytes are missing. -/
theorem persists_parse (options : Options) (image more : ByteArray) :
    Persists (parse image options) (parse (image ++ more) options) := by
  rw [parse_eq, parse_eq]
  refine persists_bind (persists_readHeader image more) fun p => ?_
  refine persists_bind (persists_readCommands options image more _ _) fun walk => ?_
  exact persists_bind (persists_buildSegments options image more _) fun table => Or.inl rfl

/-- **Bytes appended to a file change neither the image in it nor the cause for which there is
none**, unless the cause is that bytes are missing.  So a file that is cut short is read as the
same image or is said to be too short. -/
theorem parse_append (options : Options) (image more : ByteArray) :
    (∀ img, parse image options = .ok img → parse (image ++ more) options = .ok img) ∧
    (∀ e, parse image options = .error e → e.isShortage = false →
      parse (image ++ more) options = .error e) ∧
    ∀ img, parse (image ++ more) options = .ok img →
      parse image options = .ok img ∨
        ∃ e, parse image options = .error e ∧ e.isShortage = true := by
  have hpersists := persists_parse options image more
  refine ⟨fun img himg => ?_, fun e he hother => ?_, fun img himg => ?_⟩
  · rcases hpersists with heq | ⟨e, he, -⟩
    · rw [← heq, himg]
    · rw [himg] at he
      cases he
  · rcases hpersists with heq | ⟨e', he', hshort⟩
    · rw [← heq, he]
    · rw [he] at he'
      cases he'
      rw [Shortage, hother] at hshort
      cases hshort
  · rcases hpersists with heq | hshort
    · left
      rw [heq, himg]
    · exact Or.inr hshort

/-- The first bytes of an image with one command, which holds the version of the source. -/
def sourceVersionFront : ByteArray := ⟨#[
  0xCE, 0xFA, 0xED, 0xFE, 12, 0, 0, 0, 9, 0, 0, 0, 2, 0, 0, 0, 1, 0, 0, 0, 16, 0, 0, 0, 0, 0, 0, 0,
  0x2A, 0, 0, 0, 16, 0]⟩

/-- Its other bytes. -/
def sourceVersionBack : ByteArray := ⟨#[0, 0, 1, 2, 3, 4, 5, 6, 7, 8]⟩

theorem sourceVersion_append :
    (∃ img, parse (sourceVersionFront ++ sourceVersionBack) = .ok img ∧
      parse (sourceVersionFront ++ sourceVersionBack ++ sourceVersionBack) = .ok img) ∧
    (parse sourceVersionBack = .error (.invalidMagic 0x02010000) ∧
      parse (sourceVersionBack ++ sourceVersionFront) = .error (.invalidMagic 0x02010000)) ∧
    ∃ e, parse sourceVersionFront = .error e ∧ e.isShortage = true := by
  obtain ⟨img, himg⟩ : ∃ img, parse (sourceVersionFront ++ sourceVersionBack) = .ok img :=
    ⟨_, rfl⟩
  have hmagic : parse sourceVersionBack = .error (.invalidMagic 0x02010000) := rfl
  have hfront : parse sourceVersionFront = .error (.bufferTooSmall 36 34) := rfl
  refine ⟨⟨img, himg, (parse_append {} _ sourceVersionBack).1 img himg⟩,
    ⟨hmagic, (parse_append {} _ sourceVersionFront).2.1 _ hmagic rfl⟩, ?_⟩
  rcases (parse_append {} sourceVersionFront sourceVersionBack).2.2 img himg with hok | hshort
  · rw [hfront] at hok
    cases hok
  · exact hshort

end Image

end MachImage
