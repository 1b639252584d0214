import MachImage.Image.Query
import MachImage.Proofs.Image.Stages
import Mathlib.Data.List.Forall2

/-!
# Segments and numbers of sections

An image has a segment for each segment command, in the order of the commands,
and in it a section for each record of the command (`Image.segments_of_parse`).
The sections are numbered from one in the order in which they are declared,
across segments, whether the contents of the segments are read or not
(`SegmentTable.map_number_build`).

Beside the segments, an image keeps a table of places: for each section the
segment that holds it and its place there.  It is filled as the segments are
built, and leads to the sections in their order
(`SegmentTable.map_sectionAt?_build`).  So looking a number up in it finds the
section at that place (`Image.section?_eq_getElem?`), which is the section of that
number (`Image.section?_eq_find?`).
-/

namespace MachImage

variable {options : Options} {image : ByteArray}

namespace Section

@[simp] theorem length_ofHeaders (segment : String) (number : Nat) (hs : List SectionHeader) :
    (ofHeaders segment number hs).length = hs.length := by
  induction hs generalizing number with
  | nil => rfl
  | cons h hs ih => simp [ofHeaders, ih]

theorem map_number_ofHeaders (segment : String) (number : Nat) (hs : List SectionHeader) :
    (ofHeaders segment number hs).map Section.number = List.range' number hs.length := by
  induction hs generalizing number with
  | nil => rfl
  | cons h hs ih => simp [ofHeaders, ofHeader, ih, List.range'_succ]

/-- Each section is made from the record at its place. -/
theorem forall₂_ofHeaders (segment : String) (number : Nat) (hs : List SectionHeader) :
    List.Forall₂ (fun h s => ∃ number, s = ofHeader number segment h) hs
      (ofHeaders segment number hs) := by
  induction hs generalizing number with
  | nil => exact .nil
  | cons h hs ih => exact .cons ⟨number, rfl⟩ (ih (number + 1))

/-- Among consecutively numbered sections the one of a number is at its place. -/
theorem find?_eq_getElem? {l : List Section} {first : Nat}
    (h : l.map Section.number = List.range' first l.length) (i : Nat) :
    l.find? (fun s => s.number = first + i) = l[i]? := by
  induction l generalizing first i with
  | nil => rfl
  | cons s l ih =>
    rw [List.map_cons, List.length_cons, List.range'_succ, List.cons.injEq] at h
    obtain ⟨hnumber, hrest⟩ := h
    cases i with
    | zero => simp [hnumber]
    | succ i =>
      rw [List.find?_cons_of_neg (by simp [hnumber]), List.getElem?_cons_succ, ← ih hrest i,
        Nat.add_right_comm, Nat.add_assoc]

end Section

namespace SegmentTable

/-- A table goes on after a segment whose contents can be read. -/
theorem build_cons {c : SegmentCommand} {contents : List UInt8}
    (h : Segment.readContents options image c = .ok contents) (position number : Nat)
    (cs : List SegmentCommand) :
    build options image position number (c :: cs) =
      let segment := Segment.ofCommand number c contents
      let rest := build options image (position + 1) (number + c.sections.length) cs
      ⟨segment :: rest.segments, segment.placesAt position ++ rest.places,
        segment.events ++ rest.events, rest.failure⟩ := by
  have hlength : (Segment.ofCommand number c contents).sections.length = c.sections.length :=
    Section.length_ofHeaders _ _ _
  rw [build, h]
  simp only [hlength]

/-- A table that does not fail has a segment for each command, in the order of the commands. -/
theorem forall₂_build {position number : Nat} {cs : List SegmentCommand}
    (h : (build options image position number cs).failure = none) :
    List.Forall₂ (fun c s => ∃ number contents, Segment.readContents options image c = .ok contents ∧
      s = Segment.ofCommand number c contents) cs
      (build options image position number cs).segments := by
  induction cs generalizing position number with
  | nil => exact .nil
  | cons c cs ih =>
    cases hread : Segment.readContents options image c with
    | error e =>
      rw [build, hread] at h
      cases h
    | ok contents =>
      rw [build_cons hread] at h ⊢
      exact .cons ⟨number, contents, hread, rfl⟩ (ih h)

/-- **The sections of a table are numbered one after another**, across segments. -/
theorem map_number_build (options : Options) (image : ByteArray) (position number : Nat)
    (cs : List SegmentCommand) :
    ((build options image position number cs).segments.flatMap Segment.sections).map
        Section.number =
      List.range' number
        ((build options image position number cs).segments.flatMap Segment.sections).length := by
  induction cs generalizing position number with
  | nil => rfl
  | cons c cs ih =>
    cases h : Segment.readContents options image c with
    | error e =>
      rw [build, h]
      rfl
    | ok contents =>
      have hlength : (Segment.ofCommand number c contents).sections.length = c.sections.length :=
        Section.length_ofHeaders _ _ _
      have hhead : (Segment.ofCommand number c contents).sections.map Section.number =
          List.range' number c.sections.length :=
        Section.map_number_ofHeaders _ _ _
      rw [build_cons h, List.flatMap_cons, List.map_append, List.length_append, hhead, ih, hlength,
        List.range'_append_1]

/-- What is published are the segments with their sections, those before a failure. -/
theorem events_eq_flatMap (options : Options) (image : ByteArray) (position number : Nat)
    (cs : List SegmentCommand) :
    (build options image position number cs).events =
      (build options image position number cs).segments.flatMap Segment.events := by
  induction cs generalizing position number with
  | nil => rfl
  | cons c cs ih =>
    cases h : Segment.readContents options image c with
    | error e =>
      rw [build, h]
      rfl
    | ok contents =>
      rw [build_cons h]
      dsimp only
      rw [ih, List.flatMap_cons]

/-- The places of the sections of a segment lead to them. -/
theorem map_sectionAt?_placesAt (before after : List Segment) (s : Segment) :
    (s.placesAt before.length).map (sectionAt? (before ++ s :: after)) = s.sections.map some := by
  refine List.ext_getElem (by simp [Segment.placesAt]) ?_
  intro k _ hk
  simp [Segment.placesAt, sectionAt?]

/-- **The table of places leads to the sections in their order.** -/
theorem map_sectionAt?_build (options : Options) (image : ByteArray) (before : List Segment)
    (number : Nat) (cs : List SegmentCommand) :
    (build options image before.length number cs).places.map
        (sectionAt? (before ++ (build options image before.length number cs).segments)) =
      ((build options image before.length number cs).segments.flatMap Segment.sections).map
        some := by
  induction cs generalizing before number with
  | nil => rfl
  | cons c cs ih =>
    cases h : Segment.readContents options image c with
    | error e =>
      rw [build, h]
      rfl
    | ok contents =>
      -- the segments behind the first one are built with the first among those before them
      have hrest := ih (before ++ [Segment.ofCommand number c contents])
        (number + c.sections.length)
      rw [List.length_append, List.length_singleton, List.append_assoc, List.singleton_append]
        at hrest
      rw [build_cons h]
      dsimp only
      rw [List.map_append, map_sectionAt?_placesAt, hrest, List.flatMap_cons, List.map_append]

/-- There are as many places as sections. -/
theorem length_places_build (options : Options) (image : ByteArray) (number : Nat)
    (cs : List SegmentCommand) :
    (build options image 0 number cs).places.length =
      ((build options image 0 number cs).segments.flatMap Segment.sections).length := by
  have hlength := congrArg List.length (map_sectionAt?_build options image [] number cs)
  rwa [List.length_map, List.length_map] at hlength

end SegmentTable

namespace Image

/-- The segments are built exactly if all the contents that are to be read are. -/
theorem result_buildSegments_eq_ok_iff {commands : List Command} {table : SegmentTable} :
    (buildSegments options image commands).result = .ok table ↔
      (SegmentTable.build options image 0 1 (commands.filterMap Command.segment?)).failure = none ∧
        table = SegmentTable.build options image 0 1 (commands.filterMap Command.segment?) :=
  Report.resultOf_eq_ok_iff

/-- The segments and the places of an image are those of a table of its commands. -/
theorem table_of_parse {img : Image} (h : parse image options = .ok img) :
    ∃ table, table = SegmentTable.build options image 0 1
        (img.commands.filterMap Command.segment?) ∧
      table.failure = none ∧ img.segments = table.segments ∧ img.places = table.places := by
  obtain ⟨header, start, table, libraries, symbols, -, -, htable, -, -, rfl⟩ := parse_eq_ok_iff.1 h
  obtain ⟨hfailure, rfl⟩ := result_buildSegments_eq_ok_iff.1 htable
  exact ⟨_, rfl, hfailure, rfl, rfl⟩

/-- **An image has a segment for each segment command**, in the order of the commands. -/
theorem segments_of_parse {img : Image} (h : parse image options = .ok img) :
    List.Forall₂ (fun c s => ∃ number contents, Segment.readContents options image c = .ok contents ∧
      s = Segment.ofCommand number c contents)
      (img.commands.filterMap Command.segment?) img.segments := by
  obtain ⟨table, rfl, hfailure, hsegments, -⟩ := table_of_parse h
  rw [hsegments]
  exact SegmentTable.forall₂_build hfailure

/-- The table of places of an image leads to its sections in their order. -/
theorem map_sectionAt?_places {img : Image} (h : parse image options = .ok img) :
    img.places.map (SegmentTable.sectionAt? img.segments) = img.sections.map some := by
  obtain ⟨table, rfl, -, hsegments, hplaces⟩ := table_of_parse h
  rw [sections, hsegments, hplaces]
  exact SegmentTable.map_sectionAt?_build options image [] 1 _

/-- The sections of an image are numbered from one on. -/
theorem map_number_sections {img : Image} (h : parse image options = .ok img) :
    img.sections.map Section.number = List.range' 1 img.sections.length := by
  obtain ⟨table, rfl, -, hsegments, -⟩ := table_of_parse h
  rw [sections, hsegments]
  exact SegmentTable.map_number_build options image 0 1 _

/-- There is a place for each section. -/
theorem length_places {img : Image} (h : parse image options = .ok img) :
    img.places.length = img.sections.length := by
  have hlength := congrArg List.length (map_sectionAt?_places h)
  rwa [List.length_map, List.length_map] at hlength

@[simp] theorem section?_zero (img : Image) : img.section? 0 = none := rfl

/-- The section of a number is found at its place, from one on. -/
theorem section?_eq_getElem? {img : Image} (h : parse image options = .ok img) {number : Nat}
    (hnumber : number ≠ 0) : img.section? number = img.sections[number - 1]? := by
  obtain ⟨place, rfl⟩ := Nat.exists_eq_succ_of_ne_zero hnumber
  have hget := congrArg (·[place]?) (map_sectionAt?_places h)
  simp only [List.getElem?_map] at hget
  rw [Nat.succ_sub_one, section?]
  cases hplace : img.places[place]? with
  | none =>
    rw [hplace] at hget
    exact (Option.map_eq_none_iff.1 hget.symm).symm
  | some p =>
    rw [hplace] at hget
    obtain ⟨s, hs, hsection⟩ := Option.map_eq_some_iff.1 hget.symm
    exact hsection.symm.trans hs.symm

/-- **The table of places finds the section of a number**, and none where there is no such
section. -/
theorem section?_eq_find? {img : Image} (h : parse image options = .ok img) (number : Nat) :
    img.section? number = img.sections.find? fun s => s.number = number := by
  have hnumbers := map_number_sections h
  cases number with
  | zero =>
    rw [section?_zero, eq_comm, List.find?_eq_none]
    intro s hs hzero
    have hmem := List.mem_map_of_mem (f := Section.number) hs
    rw [hnumbers, List.mem_range'_1, of_decide_eq_true hzero] at hmem
    exact absurd hmem.1 (by decide)
  | succ place =>
    rw [section?_eq_getElem? h (Nat.succ_ne_zero place), Nat.succ_sub_one, Nat.add_comm]
    exact (Section.find?_eq_getElem? hnumbers place).symm

end Image

end MachImage
