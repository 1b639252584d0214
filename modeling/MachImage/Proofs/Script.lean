import MachImage.Proofs.Header.Exact
import MachImage.Script

/-!
# Scripts keep the cursor inside the image

A script may hold any steps, with any arguments, and goes on after a step that
fails.  What one step does is said once, by `Script.Sound`: it succeeds exactly
if its bytes are there and it allows them (`Step.Allows`), a failure leaves the
cursor where it was, a success moves it over exactly the bytes that it used and
depends on no others, and nested steps are undone.  Every step is sound wherever
the cursor is inside the image (`Script.sound`), and keeps it there.

`Reached` says which steps a script comes to and from which cursor, at any depth
of nesting.  The invariant is carried along it: `Script.run_sound` says that
every step which is reached starts inside the image, is sound, and is what the
reply shows.
-/

namespace MachImage

/-! ## What a step is expected to use -/

namespace Step

/-- How many of the bytes ahead a step looks at when it succeeds. -/
def reach (ahead : List UInt8) : Step → Nat
  | skip n | peek n | bytes n | fixedName n => n
  | u8 => 1
  | u16 => 2
  | u32 | validate => 4
  | words n => 4 * n
  | terminatedName => Name.zeroIndex ahead + 1
  | unsignedLeb | signedLeb => Leb128.extent ahead
  | header => 28
  | record r => r.size
  | info | seek _ | checkpoint _ | observedCheckpoint _ _ | fork _ => 0

/-- How many of the bytes ahead a step passes when it succeeds. -/
def advance (ahead : List UInt8) : Step → Nat
  | peek _ | validate => 0
  | step => step.reach ahead

/-- What a step asks for, apart from that the bytes it looks at are there. -/
def Allows (image : ByteArray) (pos : Nat) : Step → Prop
  | seek target => target ≤ image.size
  | validate => word image pos = 0xFEEDFACE
  | unsignedLeb | signedLeb => Leb128.extent (windowFrom image pos) ≤ 10
  | header => Header.ValidAt image pos
  | _ => True

/-- Where a step that succeeds leaves the cursor. -/
def target (pos : Nat) (ahead : List UInt8) : Step → Nat
  | seek target => target
  | step => pos + step.advance ahead

/-- Whether a step looks at the bytes ahead and at nothing else. -/
def reads : Step → Bool
  | info | seek _ | checkpoint _ | observedCheckpoint _ _ | fork _ => false
  | _ => true

/-- The steps inside a step. -/
def inner : Step → List Step
  | checkpoint steps | observedCheckpoint steps _ | fork steps => steps
  | _ => []

/-- Whether a step runs others. -/
def nests : Step → Bool
  | checkpoint _ | observedCheckpoint _ _ | fork _ => true
  | _ => false

end Step

namespace Reply

/-- The cause of a failure. -/
def error? : Reply → Option Error
  | failed e => some e
  | _ => none

/-- The cursor that a checkpoint puts back. -/
def saved? : Reply → Option Nat
  | checkpoint saved _ | observedCheckpoint saved _ _ => some saved
  | _ => none

/-- The outcomes of the steps inside a step. -/
def inner : Reply → List (Reply × Nat)
  | checkpoint _ steps | observedCheckpoint _ steps _ | fork steps => steps
  | _ => []

end Reply

namespace Script

variable {image : ByteArray} {pos : Nat}

/-! ## One step -/

/-- What a step that fails does to the cursor: nothing, unless it is a header that declares kinds
which are not known. -/
def FailsProperly (image : ByteArray) (pos : Nat) (e : Error) (cursor : Nat) : Step → Prop
  | .header => Header.Refuses image pos e cursor
  | _ => cursor = pos

/-- What a step that succeeds does. -/
structure Succeeds (image : ByteArray) (pos : Nat) (step : Step) (outcome : Reply × Nat) :
    Prop where
  /-- It moves the cursor over the bytes that it is to pass, or to where it seeks. -/
  cursor_eq : outcome.2 = step.target pos (windowFrom image pos)
  /-- The bytes it looks at are there, -/
  covered : pos + step.reach (windowFrom image pos) ≤ image.size
  /-- and with the same bytes anywhere else it does the same. -/
  depends : step.reads = true → ∀ other place,
    place + step.reach (windowFrom image pos) ≤ other.size →
    window other place (step.reach (windowFrom image pos)) =
      window image pos (step.reach (windowFrom image pos)) →
    runStep other place step = (outcome.1, place + step.advance (windowFrom image pos))

/-- What a step does from a place on. -/
structure Sound (image : ByteArray) (pos : Nat) (step : Step) : Prop where
  /-- The cursor stays inside the image. -/
  inside : (runStep image pos step).2 ≤ image.size
  /-- It succeeds if the bytes that it looks at are there and it allows them, and only then. -/
  succeeds_iff : (runStep image pos step).1.error? = none ↔
    pos + step.reach (windowFrom image pos) ≤ image.size ∧ step.Allows image pos
  /-- A failure leaves it where it was, or behind the header that is refused. -/
  failed : ∀ e, (runStep image pos step).1.error? = some e →
    FailsProperly image pos e (runStep image pos step).2 step
  /-- A success moves it as the step says. -/
  succeeded : (runStep image pos step).1.error? = none →
    Succeeds image pos step (runStep image pos step)
  /-- Nested steps are undone, whatever they did, and a checkpoint tells where it goes back to. -/
  restored : step.nests = true → (runStep image pos step).2 = pos ∧
    ∀ saved ∈ (runStep image pos step).1.saved?, saved = pos

theorem FailsProperly.cursor_le {step : Step} {e : Error} {cursor : Nat}
    (h : FailsProperly image pos e cursor step) (hpos : pos ≤ image.size) :
    cursor ≤ image.size := by
  cases step with
  | header =>
    simp only [FailsProperly, Header.Refuses] at h
    split_ifs at h
    · omega
    · omega
  | _ => exact Nat.le_trans (Nat.le_of_eq h) hpos

section Readers

variable {α : Type} {r : Reader α} {f : α → Reply} {step : Step}

theorem reply_of_yields {a : α} {cursor : Nat} (h : r.Yields image pos a cursor) :
    reply r f image pos = (f a, cursor) := by
  obtain ⟨hok, rfl⟩ := h
  simp only [reply, hok]

theorem reply_of_fails {e : Error} {cursor : Nat} (h : r.Fails image pos e cursor) :
    reply r f image pos = (.failed e, cursor) := by
  obtain ⟨herror, rfl⟩ := h
  simp only [reply, herror]

/-- A step that is a reader is sound if the reader succeeds and fails as the step is to. -/
theorem sound_of_reader (hrun : runStep image pos step = reply r f image pos)
    (hgrants : (∃ a cursor, r.Yields image pos a cursor) ↔
      pos + step.reach (windowFrom image pos) ≤ image.size ∧ step.Allows image pos)
    (hyields : ∀ {a cursor}, r.Yields image pos a cursor →
      cursor ≤ image.size ∧ (f a).error? = none ∧ Succeeds image pos step (f a, cursor))
    (hfails : ∀ {e cursor}, r.Fails image pos e cursor → FailsProperly image pos e cursor step)
    (hnests : step.nests = false) (hpos : pos ≤ image.size) : Sound image pos step := by
  rcases r.yields_or_fails image pos with ⟨a, cursor, h⟩ | ⟨e, cursor, h⟩
  · have houtcome : runStep image pos step = (f a, cursor) := by rw [hrun, reply_of_yields h]
    obtain ⟨hle, hvalue, hsucceeds⟩ := hyields h
    constructor
    · rw [houtcome]
      exact hle
    · rw [houtcome]
      exact iff_of_true hvalue (hgrants.1 ⟨a, cursor, h⟩)
    · intro e he
      rw [houtcome, hvalue] at he
      cases he
    · intro _
      rw [houtcome]
      exact hsucceeds
    · simp [hnests]
  · have houtcome : runStep image pos step = (.failed e, cursor) := by rw [hrun, reply_of_fails h]
    constructor
    · rw [houtcome]
      exact (hfails h).cursor_le hpos
    · rw [houtcome, ← hgrants]
      exact iff_of_false nofun fun ⟨a, middle, ha⟩ => h.not_yields ha
    · intro e' he
      rw [houtcome] at he ⊢
      cases he
      exact hfails h
    · intro hnone
      rw [houtcome] at hnone
      cases hnone
    · simp [hnests]

/-- A step that is a reader succeeds as it is to if the reader uses the bytes that the step is to
use. -/
theorem succeeds_of_uses (hrun : ∀ image pos, runStep image pos step = reply r f image pos)
    (huses : r.Uses (fun ahead => step.reach ahead) fun ahead => step.advance ahead)
    (hreads : step.reads = true) (hpos : pos ≤ image.size) {a : α} {cursor : Nat}
    (h : r.Yields image pos a cursor) : Succeeds image pos step (f a, cursor) := by
  constructor
  · show cursor = _
    cases step with
    | seek => cases hreads
    | _ => exact huses.cursor_eq hpos h
  · exact huses.inside hpos h
  · intro _ other place hle hwindow
    rw [hrun]
    exact reply_of_yields (huses.elsewhere hpos h hle hwindow)

/-- So a step that is an atomic reader is sound. -/
theorem sound_of_atomic (hrun : ∀ image pos, runStep image pos step = reply r f image pos)
    (hgrants : (∃ a cursor, r.Yields image pos a cursor) ↔
      pos + step.reach (windowFrom image pos) ≤ image.size ∧ step.Allows image pos)
    (hr : r.Atomic (fun ahead => step.reach ahead) fun ahead => step.advance ahead)
    (hvalue : ∀ a, (f a).error? = none) (hreads : step.reads = true) (hheader : step ≠ .header)
    (hpos : pos ≤ image.size) : Sound image pos step := by
  refine sound_of_reader (hrun image pos) hgrants ?_ ?_ ?_ hpos
  · intro a cursor h
    exact ⟨hr.cursor_le hpos h, hvalue a, succeeds_of_uses hrun hr.toUses hreads hpos h⟩
  · intro e cursor h
    cases step with
    | header => exact absurd rfl hheader
    | _ => exact hr.rests image pos e cursor h
  · cases step <;> first | rfl | cases hreads

/-- So is one that computes something from a fixed count of bytes and asks for nothing else. -/
theorem sound_of_bytes {n : Nat} {g : List UInt8 → α}
    (hrun : ∀ image pos, runStep image pos step =
      reply (Reader.bytes n >>= fun bs => Pure.pure (g bs)) f image pos)
    (hreach : (fun ahead => step.reach ahead) = fun _ => n)
    (hadvance : (fun ahead => step.advance ahead) = fun _ => n)
    (hallows : step.Allows image pos) (hvalue : ∀ a, (f a).error? = none)
    (hreads : step.reads = true) (hheader : step ≠ .header) (hpos : pos ≤ image.size) :
    Sound image pos step := by
  have hatomic : (Reader.bytes n >>= fun bs => Pure.pure (g bs)).Atomic
      (fun ahead => step.reach ahead) fun ahead => step.advance ahead := by
    rw [hreach, hadvance]
    exact (Reader.atomic_bytes n).map g
  refine sound_of_atomic hrun ?_ hatomic hvalue hreads hheader hpos
  rw [congrFun hreach, and_iff_left hallows]
  exact Reader.exists_yields_bytes_map

end Readers

/-- A step that leaves the cursor alone and does not fail is sound. -/
theorem sound_of_still {step : Step} (hcursor : (runStep image pos step).2 = pos)
    (hvalue : (runStep image pos step).1.error? = none)
    (hsaved : ∀ saved ∈ (runStep image pos step).1.saved?, saved = pos)
    (htarget : step.target pos (windowFrom image pos) = pos)
    (hreach : step.reach (windowFrom image pos) = 0) (hallows : step.Allows image pos)
    (hreads : step.reads = false) (hpos : pos ≤ image.size) : Sound image pos step := by
  constructor
  · rw [hcursor]
    exact hpos
  · rw [hreach]
    exact iff_of_true hvalue ⟨hpos, hallows⟩
  · simp [hvalue]
  · intro _
    refine ⟨hcursor.trans htarget.symm, ?_, ?_⟩
    · rw [hreach]
      exact hpos
    · simp [hreads]
  · intro _
    exact ⟨hcursor, hsaved⟩

/-- Every step is sound wherever the cursor is inside the image. -/
theorem sound (hpos : pos ≤ image.size) (step : Step) : Sound image pos step := by
  cases step with
  | info =>
    exact sound_of_still rfl rfl (by simp [runStep, Reply.saved?]) rfl rfl trivial rfl hpos
  | seek target =>
    refine sound_of_reader (r := Reader.seek target) (f := fun _ => .done) rfl ?_ ?_ ?_ rfl hpos
    · exact Reader.exists_yields_seek.trans (and_iff_right hpos).symm
    · intro a cursor h
      obtain ⟨hle, rfl⟩ := Reader.yields_seek.1 h
      exact ⟨hle, rfl, rfl, hpos, by simp [Step.reads]⟩
    · intro e cursor h
      exact (Reader.fails_seek.1 h).2.2
  | skip n =>
    exact sound_of_bytes (f := fun _ => .done) (fun _ _ => rfl) rfl rfl trivial (fun _ => rfl)
      rfl nofun hpos
  | validate =>
    exact sound_of_atomic (r := Header.validate) (f := fun _ => .done) (fun _ _ => rfl)
      Header.exists_yields_validate Header.atomic_validate (fun _ => rfl) rfl nofun hpos
  | peek n =>
    exact sound_of_atomic (r := Reader.peek n) (f := .bytes) (fun _ _ => rfl)
      ((Reader.exists_yields_within.trans Reader.exists_yields_bytes).trans
        (and_iff_left trivial).symm)
      (Reader.atomic_peek n) (fun _ => rfl) rfl nofun hpos
  | bytes n =>
    exact sound_of_atomic (r := Reader.bytes n) (f := .bytes) (fun _ _ => rfl)
      (Reader.exists_yields_bytes.trans (and_iff_left trivial).symm)
      (Reader.atomic_bytes n) (fun _ => rfl) rfl nofun hpos
  | u8 =>
    exact sound_of_bytes (f := fun v : UInt8 => .number v.toNat) (fun _ _ => rfl) rfl rfl
      trivial (fun _ => rfl) rfl nofun hpos
  | u16 =>
    exact sound_of_bytes (f := fun v : UInt16 => .number v.toNat) (fun _ _ => rfl) rfl rfl
      trivial (fun _ => rfl) rfl nofun hpos
  | u32 =>
    exact sound_of_bytes (f := fun v : UInt32 => .number v.toNat) (fun _ _ => rfl) rfl rfl
      trivial (fun _ => rfl) rfl nofun hpos
  | words n =>
    exact sound_of_bytes (f := .words) (fun _ _ => rfl) rfl rfl trivial (fun _ => rfl)
      rfl nofun hpos
  | fixedName n =>
    exact sound_of_bytes (f := .text) (fun _ _ => rfl) rfl rfl trivial (fun _ => rfl)
      rfl nofun hpos
  | terminatedName =>
    exact sound_of_atomic (r := Reader.terminatedName) (f := .text) (fun _ _ => rfl)
      ((Reader.exists_yields_terminatedName hpos).trans (and_iff_left trivial).symm)
      (Reader.atomic_scan Name.endsAt_terminated? _) (fun _ => rfl) rfl nofun hpos
  | unsignedLeb =>
    exact sound_of_atomic (r := Reader.unsignedLeb) (f := .unsigned) (fun _ _ => rfl)
      (Reader.exists_yields_scan_leb hpos fun _ _ => Leb128.exists_unsigned?_iff)
      (Reader.atomic_scan Leb128.endsAt_unsigned? _) (fun _ => rfl) rfl nofun hpos
  | signedLeb =>
    exact sound_of_atomic (r := Reader.signedLeb) (f := .signed) (fun _ _ => rfl)
      (Reader.exists_yields_scan_leb hpos fun _ _ => Leb128.exists_signed?_iff)
      (Reader.atomic_scan Leb128.endsAt_signed? _) (fun _ => rfl) rfl nofun hpos
  | header =>
    refine sound_of_reader (r := Header.read) (f := .header) rfl ?_ ?_ Header.fails_read rfl hpos
    · exact Header.exists_yields_read.trans (iff_and_self.2 Header.ValidAt.inside)
    · intro a cursor h
      exact ⟨Header.uses_read.cursor_le hpos h, rfl,
        succeeds_of_uses (fun _ _ => rfl) Header.uses_read rfl hpos h⟩
  | record r =>
    exact sound_of_bytes (f := .record r) (fun _ _ => rfl) rfl rfl trivial (fun _ => rfl)
      rfl nofun hpos
  | checkpoint steps =>
    exact sound_of_still rfl rfl (by simp [runStep, Reply.saved?]) rfl rfl trivial rfl hpos
  | observedCheckpoint steps n =>
    exact sound_of_still rfl rfl (by simp [runStep, Reply.saved?]) rfl rfl trivial rfl hpos
  | fork steps =>
    exact sound_of_still rfl rfl (by simp [runStep, Reply.saved?]) rfl rfl trivial rfl hpos

/-! ## Whole scripts -/

theorem finalCursor_cons (start : Nat) (outcome : Reply × Nat) (rest : List (Reply × Nat)) :
    finalCursor start (outcome :: rest) = finalCursor outcome.2 rest := by
  cases rest with
  | nil => rfl
  | cons next rest => simp [finalCursor, List.getLast?_cons]

/-- The cursor after a script is inside the image. -/
theorem finalCursor_le (hpos : pos ≤ image.size) (steps : List Step) :
    finalCursor pos (run image pos steps) ≤ image.size := by
  induction steps generalizing pos with
  | nil => exact hpos
  | cons step steps ih =>
    rw [run, finalCursor_cons]
    exact ih (sound hpos step).inside

/-- A script comes to a step, itself or inside another step, with the cursor at a place. -/
inductive Reached (image : ByteArray) : List Step → Nat → Step → Nat → Prop
  | first {step rest pos} : Reached image (step :: rest) pos step pos
  | later {step rest pos other place} :
      Reached image rest (runStep image pos step).2 other place →
      Reached image (step :: rest) pos other place
  | inside {step rest pos other place} :
      Reached image step.inner pos other place → Reached image (step :: rest) pos other place
  /-- The look at the end of a checkpoint. -/
  | look {steps n rest pos} :
      Reached image (.observedCheckpoint steps n :: rest) pos (.peek n)
        (finalCursor pos (run image pos steps))

/-- The cursor is inside the image whenever a step is reached. -/
theorem Reached.cursor_le {steps : List Step} {step : Step} {place : Nat}
    (h : Reached image steps pos step place) (hpos : pos ≤ image.size) : place ≤ image.size := by
  induction h with
  | first => exact hpos
  | later _ ih => exact ih (sound hpos _).inside
  | inside _ ih => exact ih hpos
  | look => exact finalCursor_le hpos _

/-- What is reached inside a step that is reached. -/
theorem Reached.trans_inner {steps : List Step} {step other : Step} {place place' : Nat}
    (h : Reached image steps pos step place)
    (hinner : Reached image step.inner place other place') :
    Reached image steps pos other place' := by
  induction h with
  | first => exact .inside hinner
  | later _ ih => exact .later (ih hinner)
  | inside _ ih => exact .inside (ih hinner)
  | look => cases hinner

/-! ## What a script shows -/

/-- The outcomes of a script, at any depth. -/
inductive Shown : List (Reply × Nat) → Reply × Nat → Prop
  | here {outcomes outcome} : outcome ∈ outcomes → Shown outcomes outcome
  | inside {outcomes outcome other} : outcome ∈ outcomes → Shown outcome.1.inner other →
      Shown outcomes other

theorem inner_reply {α : Type} {r : Reader α} {f : α → Reply} (hf : ∀ a, (f a).inner = []) :
    (reply r f image pos).1.inner = [] := by
  rcases r.yields_or_fails image pos with ⟨a, cursor, h⟩ | ⟨e, cursor, h⟩
  · rw [reply_of_yields h]
    exact hf a
  · rw [reply_of_fails h]
    rfl

/-- A step shows the outcomes of the steps inside it. -/
theorem inner_runStep (step : Step) :
    (runStep image pos step).1.inner = run image pos step.inner := by
  cases step with
  | info | checkpoint | observedCheckpoint | fork => rfl
  | _ => exact inner_reply fun _ => rfl

theorem reached_of_mem {steps : List Step} {outcome : Reply × Nat}
    (h : outcome ∈ run image pos steps) :
    ∃ step place, Reached image steps pos step place ∧ outcome = runStep image place step := by
  induction steps generalizing pos with
  | nil => cases h
  | cons step steps ih =>
    rw [run, List.mem_cons] at h
    rcases h with rfl | h
    · exact ⟨step, pos, .first, rfl⟩
    · obtain ⟨other, place, hreached, houtcome⟩ := ih h
      exact ⟨other, place, .later hreached, houtcome⟩

/-- Whatever is shown is the outcome of a step that is reached. -/
theorem reached_of_shown {outcomes : List (Reply × Nat)} {outcome : Reply × Nat}
    (h : Shown outcomes outcome) {steps : List Step} (houtcomes : outcomes = run image pos steps) :
    ∃ step place, Reached image steps pos step place ∧ outcome = runStep image place step := by
  induction h generalizing steps pos with
  | here hmem =>
    rw [houtcomes] at hmem
    exact reached_of_mem hmem
  | inside hmem _ ih =>
    rw [houtcomes] at hmem
    obtain ⟨step, place, hreached, rfl⟩ := reached_of_mem hmem
    obtain ⟨other, place', hinner, houtcome⟩ := ih (inner_runStep step)
    exact ⟨other, place', hreached.trans_inner hinner, houtcome⟩

/-- **Scripts keep the cursor sound.**  Wherever a script starts inside the image, it ends inside
it; each step that it comes to, at any depth, starts inside it and is sound; and all that is shown
is what these steps do. -/
theorem run_sound (hpos : pos ≤ image.size) (steps : List Step) :
    finalCursor pos (run image pos steps) ≤ image.size ∧
      (∀ step place, Reached image steps pos step place →
        place ≤ image.size ∧ Sound image place step) ∧
      ∀ outcome, Shown (run image pos steps) outcome →
        ∃ step place, Reached image steps pos step place ∧ outcome = runStep image place step := by
  refine ⟨finalCursor_le hpos steps, ?_, ?_⟩
  · intro step place hreached
    have hplace := hreached.cursor_le hpos
    exact ⟨hplace, sound hplace step⟩
  · intro outcome hshown
    exact reached_of_shown hshown rfl

/-- An image for an unknown processor, a number of three bytes and a name behind its header. -/
def unknownProcessor : ByteArray :=
  ⟨(LittleEndian.digits 4 0xFEEDFACE ++ [7] ++ List.replicate 23 0 ++
    [0xE5, 0x8E, 0x26, 0x41, 0x42, 0]).toArray⟩

/-- A script that passes over a header which is refused and fails behind the name. -/
def nestedScript : List Step :=
  [.header, .seek 0xFFFFFFFFFFFFFFFF, .unsignedLeb,
    .checkpoint [.terminatedName, .fork [.seek 0], .u8], .peek 3]

/-- The read inside the checkpoint fails at the end of the image and stays there; the steps around
it go on from behind the number, which is read because its three bytes are there. -/
theorem nestedScript_sound :
    Sound unknownProcessor 34 .u8 ∧ Sound unknownProcessor 31 (.peek 3) ∧
      (runStep unknownProcessor 34 .u8).1.error? ≠ none ∧
      (runStep unknownProcessor 28 .unsignedLeb).1.error? = none ∧
      finalCursor 0 (run unknownProcessor 0 nestedScript) ≤ 34 := by
  have hstart : 0 ≤ unknownProcessor.size := Nat.zero_le _
  obtain ⟨hend, hreached, -⟩ := run_sound hstart nestedScript
  have hnumber : Reached unknownProcessor nestedScript 0 .unsignedLeb 28 :=
    .later (.later .first)
  have hinner : Reached unknownProcessor nestedScript 0 .u8 34 :=
    .later (.later (.later (.inside (.later (.later .first)))))
  have hlast : Reached unknownProcessor nestedScript 0 (.peek 3) 31 :=
    .later (.later (.later (.later .first)))
  have hread : 28 + Leb128.extent (windowFrom unknownProcessor 28) ≤ unknownProcessor.size ∧
      Leb128.extent (windowFrom unknownProcessor 28) ≤ 10 := by decide
  refine ⟨(hreached _ _ hinner).2, (hreached _ _ hlast).2, ?_, ?_, hend⟩
  · intro hnone
    have hcovered := ((hreached _ _ hinner).2.succeeds_iff.1 hnone).1
    exact absurd hcovered (by decide)
  · exact (hreached _ _ hnumber).2.succeeds_iff.2 hread

end Script

end MachImage
