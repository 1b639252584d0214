import MachImage.Proofs.First
import MachImage.Proofs.Image.Sections

/-!
# Segments with and without their contents

Whether the contents of segments are read decides what the segments hold and
whether one that runs past the end of the file is refused, and nothing else.
Segments that are read have the bytes of the file as their contents and are
otherwise those that are not read (`SegmentTable.build_of_inside`); the first one
that does not lie inside the file ends the building
(`SegmentTable.failure_build_of_outside`).
-/

namespace MachImage

variable {options options' full bare : Options} {image : ByteArray}

/-! ## Contents -/

namespace SegmentCommand

/-- The bytes of the file that fill a segment. -/
def contentsIn (image : ByteArray) (c : SegmentCommand) : List UInt8 :=
  window image c.fileOffset.toNat c.fileSize.toNat

/-- All the bytes that fill a segment are in the file. -/
def ContentsInside (image : ByteArray) (c : SegmentCommand) : Prop :=
  c.fileOffset.toNat + c.fileSize.toNat ≤ image.size

instance (image : ByteArray) (c : SegmentCommand) : Decidable (c.ContentsInside image) :=
  inferInstanceAs (Decidable (_ ≤ _))

/-- The failure of reading contents that are not all in the file.  The place where they start is
looked for before they are read. -/
def contentsFailure (image : ByteArray) (c : SegmentCommand) : Error :=
  .bufferTooSmall
    (if image.size < c.fileOffset.toNat then c.fileOffset.toNat
      else c.fileOffset.toNat + c.fileSize.toNat)
    image.size

end SegmentCommand

namespace Segment

/-- A segment without its contents. -/
def withoutContents (s : Segment) : Segment := { s with contents := [] }

@[simp] theorem sections_withoutContents (s : Segment) : s.withoutContents.sections = s.sections :=
  rfl

theorem readContents_congr (hdata : options.segmentData = options'.segmentData)
    (c : SegmentCommand) : readContents options image c = readContents options' image c := by
  unfold readContents
  rw [hdata]

theorem readContents_of_not_reads (hbare : bare.segmentData = false) (c : SegmentCommand) :
    readContents bare image c = .ok [] := by
  unfold readContents
  rw [hbare, if_neg Bool.false_ne_true]

theorem readContents_of_inside (hfull : full.segmentData = true) {c : SegmentCommand}
    (h : c.ContentsInside image) : readContents full image c = .ok (c.contentsIn image) := by
  unfold SegmentCommand.ContentsInside at h
  have hseek : Reader.seek c.fileOffset.toNat image 0 = ⟨.ok (), c.fileOffset.toNat, []⟩ :=
    if_neg (by omega)
  unfold readContents contentsReader
  rw [if_pos hfull, Reader.bind_of_ok hseek]
  show (Reader.take c.fileSize.toNat _ image c.fileOffset.toNat).result = _
  unfold Reader.take
  rw [if_neg (by omega)]
  rfl

theorem readContents_of_outside (hfull : full.segmentData = true) {c : SegmentCommand}
    (h : ¬ c.ContentsInside image) :
    readContents full image c = .error (c.contentsFailure image) := by
  unfold SegmentCommand.ContentsInside at h
  unfold readContents contentsReader SegmentCommand.contentsFailure
  rw [if_pos hfull]
  by_cases hstart : image.size < c.fileOffset.toNat
  · have hseek : Reader.seek c.fileOffset.toNat image 0 =
        ⟨.error (.bufferTooSmall c.fileOffset.toNat image.size), 0, []⟩ := if_pos hstart
    rw [if_pos hstart, Reader.bind_of_error hseek]
  · have hseek : Reader.seek c.fileOffset.toNat image 0 = ⟨.ok (), c.fileOffset.toNat, []⟩ :=
      if_neg hstart
    -- the end of the contents is far from the last position of 64 bits
    have hlast : c.fileOffset.toNat + c.fileSize.toNat ≤ lastPosition := by
      have hoffset := c.fileOffset.toNat_lt
      have hsize := c.fileSize.toNat_lt
      have hvalue : lastPosition = 18446744073709551615 := rfl
      omega
    rw [if_neg hstart, Reader.bind_of_ok hseek]
    show (Reader.take c.fileSize.toNat _ image c.fileOffset.toNat).result = _
    unfold Reader.take
    rw [if_pos (by omega), Nat.min_eq_left hlast]

end Segment

/-! ## Tables of segments -/

namespace SegmentTable

theorem build_congr (hdata : options.segmentData = options'.segmentData) (position number : Nat)
    (cs : List SegmentCommand) :
    build options image position number cs = build options' image position number cs := by
  induction cs generalizing position number with
  | nil => rfl
  | cons c cs ih =>
    rw [build, build, Segment.readContents_congr hdata]
    simp only [ih]

/-- Segments whose contents are not read cannot fail. -/
theorem failure_build_of_not_reads (hbare : bare.segmentData = false) (position number : Nat)
    (cs : List SegmentCommand) : (build bare image position number cs).failure = none := by
  induction cs generalizing position number with
  | nil => rfl
  | cons c cs ih =>
    rw [build_cons (Segment.readContents_of_not_reads hbare c)]
    exact ih _ _

/-- **Segments whose contents lie inside the file have these contents** and are otherwise the
segments that are not read, with the same places of their sections. -/
theorem build_of_inside (hfull : full.segmentData = true) (hbare : bare.segmentData = false)
    (position number : Nat) {cs : List SegmentCommand} (h : ∀ c ∈ cs, c.ContentsInside image) :
    (build full image position number cs).failure = none ∧
      (build full image position number cs).segments.map Segment.withoutContents =
        (build bare image position number cs).segments ∧
      (build full image position number cs).segments.map Segment.contents =
        cs.map (SegmentCommand.contentsIn image) ∧
      (build full image position number cs).places =
        (build bare image position number cs).places := by
  induction cs generalizing position number with
  | nil => exact ⟨rfl, rfl, rfl, rfl⟩
  | cons c cs ih =>
    rw [List.forall_mem_cons] at h
    obtain ⟨hfailure, hsegments, hcontents, hplaces⟩ :=
      ih (position + 1) (number + c.sections.length) h.2
    rw [build_cons (Segment.readContents_of_inside hfull h.1),
      build_cons (Segment.readContents_of_not_reads hbare c)]
    refine ⟨hfailure, ?_, ?_, ?_⟩
    · show _ :: _ = _ :: _
      rw [hsegments]
      rfl
    · show _ :: _ = _ :: _
      rw [hcontents]
      rfl
    · show _ ++ _ = _ ++ _
      rw [hplaces]
      rfl

/-- **The first segment whose contents do not lie inside the file ends the building.** -/
theorem failure_build_of_outside (hfull : full.segmentData = true) (position number : Nat)
    {before after : List SegmentCommand} {c : SegmentCommand}
    (hbefore : ∀ d ∈ before, d.ContentsInside image) (hc : ¬ c.ContentsInside image) :
    (build full image position number (before ++ c :: after)).failure =
      some (c.contentsFailure image) := by
  induction before generalizing position number with
  | nil =>
    rw [List.nil_append, build, Segment.readContents_of_outside hfull hc]
  | cons d before ih =>
    rw [List.forall_mem_cons] at hbefore
    rw [List.cons_append, build_cons (Segment.readContents_of_inside hfull hbefore.1)]
    exact ih _ _ hbefore.2

/-- Of the segments that are not inside the file there is a first one. -/
theorem exists_first_outside {cs : List SegmentCommand} (h : ∃ c ∈ cs, ¬ c.ContentsInside image) :
    ∃ before c after, cs = before ++ c :: after ∧ (∀ d ∈ before, d.ContentsInside image) ∧
      ¬ c.ContentsInside image := by
  obtain ⟨c, ⟨before, after, hsplit, hbefore, hc⟩, -⟩ := exists_first h
  exact ⟨before, c, after, hsplit, fun d hd => not_not.1 (hbefore d hd), hc⟩

end SegmentTable

end MachImage
