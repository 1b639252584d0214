import MachImage.Proofs.Command.Encoding
import MachImage.Proofs.Image.Sections
import Mathlib.Algebra.Ring.Nat

/-!
# One numbering for all sections

The records of the sections lie in the segment commands, and these lie one after
another, so the records are disjoint and in file order
(`Image.pairwise_declarations`).  Hence there are no more of them than bytes
allow (`Image.declaredCount_bytes`), and a counter of 32 bits is enough for
images of less than 68 times 2^32 bytes.

An image keeps its sections in its segments, and beside them the table of places
(`Image.places`) in which the section of a number is looked up.  Both follow the
records, so the section of a number is the one at its place, is the one that says
this number, and comes from the record of that number
(`Image.numbered_of_parse`).
-/

namespace MachImage

/-! ## Declarations -/

/-- A section as a command declares it. -/
structure SectionDeclaration where
  /-- Where the record of the section is in the file. -/
  offset : Nat
  /-- The segment command that the record is part of. -/
  owner : SegmentCommand
  header : SectionHeader
  deriving DecidableEq, Repr

namespace SectionDeclaration

/-- The section that is declared, with its number. -/
def toSection (number : Nat) (d : SectionDeclaration) : Section :=
  Section.ofHeader number (Segment.displayName d.owner) d.header

/-- Declarations of one command, the first of them at a place in the file. -/
def ofHeaders (owner : SegmentCommand) : (offset : Nat) → List SectionHeader →
    List SectionDeclaration
  | _, [] => []
  | offset, h :: hs => ⟨offset, owner, h⟩ :: ofHeaders owner (offset + 68) hs

/-- The sections of a segment are those that its command declares, numbered from `number` on. -/
theorem map_toSection_ofHeaders (owner : SegmentCommand) (offset number : Nat)
    (hs : List SectionHeader) :
    ((ofHeaders owner offset hs).zipIdx number).map (fun (d, n) => d.toSection n) =
      Section.ofHeaders (Segment.displayName owner) number hs := by
  induction hs generalizing offset number with
  | nil => rfl
  | cons h hs ih =>
    rw [ofHeaders, List.zipIdx_cons, List.map_cons, ih]
    rfl

@[simp] theorem length_ofHeaders (owner : SegmentCommand) (offset : Nat)
    (hs : List SectionHeader) : (ofHeaders owner offset hs).length = hs.length := by
  induction hs generalizing offset with
  | nil => rfl
  | cons h hs ih => simp [ofHeaders, ih]

/-- A declaration of a command lies among its records and belongs to it. -/
theorem mem_ofHeaders {owner : SegmentCommand} {offset : Nat} {hs : List SectionHeader}
    {d : SectionDeclaration} (hd : d ∈ ofHeaders owner offset hs) :
    d.owner = owner ∧ ∃ k < hs.length, d.offset = offset + 68 * k ∧ hs[k]? = some d.header := by
  induction hs generalizing offset with
  | nil => cases hd
  | cons h hs ih =>
    rw [ofHeaders, List.mem_cons] at hd
    rcases hd with rfl | hd
    · exact ⟨rfl, 0, Nat.succ_pos _, rfl, rfl⟩
    · obtain ⟨howner, k, hk, hoffset, hheader⟩ := ih hd
      exact ⟨howner, k + 1, Nat.succ_lt_succ hk, by omega, hheader⟩

/-- The records of a command lie one after another. -/
theorem pairwise_ofHeaders (owner : SegmentCommand) (offset : Nat) (hs : List SectionHeader) :
    (ofHeaders owner offset hs).Pairwise fun a b => a.offset + 68 ≤ b.offset := by
  induction hs generalizing offset with
  | nil => exact List.Pairwise.nil
  | cons h hs ih =>
    refine List.Pairwise.cons ?_ (ih (offset + 68))
    intro b hb
    obtain ⟨-, k, -, hoffset, -⟩ := mem_ofHeaders hb
    rw [hoffset]
    exact Nat.le_add_right _ _

end SectionDeclaration

/-- The sections that a command declares: none unless it is a segment command. -/
def Command.declarations (c : Command) : List SectionDeclaration :=
  match c.segment? with
  | some s => SectionDeclaration.ofHeaders s (c.header.offset + 56) s.sections
  | none => []

/-- The sections that the commands of an image declare, in file order. -/
def Image.declarations (img : Image) : List SectionDeclaration :=
  img.commands.flatMap Command.declarations

/-- The count of sections that the segment commands of an image declare together. -/
def Image.declaredCount (img : Image) : Nat :=
  ((img.commands.filterMap Command.segment?).map fun s => s.sectionCount.toNat).sum

/-- No other kind of command has a shape. -/
def CommandId.OwnsShape (id : CommandId) (shape : CommandShape) : Prop :=
  ∀ other : CommandId, other.shape? = some shape ↔ other = id

theorem CommandId.ownsShape_segment : OwnsShape .segment .segment := by
  intro other
  cases other <;> decide

theorem CommandId.ownsShape_symtab : OwnsShape .symtab .symtab := by
  intro other
  cases other <;> decide

/-! ## Where the declarations are -/

variable {options : Options} {image : ByteArray}

/-- A segment command is as long as its record and its sections, and holds as many as it says. -/
theorem EntryAt.segment {c : Command} {s : SegmentCommand} {pos : Nat}
    (h : EntryAt options image pos (.decoded c)) (hs : c.segment? = some s) :
    s = Command.segmentAt image c.header.offset ∧ s.sections.length = s.sectionCount.toNat ∧
      56 + 68 * s.sections.length ≤ c.header.length.toNat := by
  cases h with
  | @decoded id shape hlength hend hid hshape hfits =>
    unfold Command.segment? at hs
    split at hs
    next s' hbody =>
      cases hs
      obtain ⟨rfl, rfl⟩ := Command.eq_segmentAt_of_bodyAt hbody
      have hcount : (Command.segmentAt image pos).sections.length =
          (word image (pos + 48)).toNat := by
        rw [Command.sections_segmentAt, List.length_map, List.length_range]
      have hlong : 56 + 68 * (word image (pos + 48)).toNat ≤ (lengthAt image pos).toNat := hfits
      rw [← hcount] at hlong
      exact ⟨rfl, hcount, hlong⟩
    · cases hs

/-- A declaration of a command is a record within the command, and says what is stored there. -/
theorem Command.mem_declarations {c : Command} {d : SectionDeclaration} {pos : Nat}
    (h : EntryAt options image pos (.decoded c)) (hd : d ∈ c.declarations) :
    c.segment? = some d.owner ∧ c.header.offset + 56 ≤ d.offset ∧
      d.offset + 68 ≤ c.header.offset + c.header.length.toNat ∧
      d.header = Command.sectionAt image d.offset := by
  unfold declarations at hd
  split at hd
  next s hs =>
    obtain ⟨hsegment, -, hlength⟩ := h.segment hs
    obtain ⟨howner, k, hk, hoffset, hheader⟩ := SectionDeclaration.mem_ofHeaders hd
    rw [howner]
    refine ⟨hs, by omega, by omega, ?_⟩
    rw [hsegment, Command.sections_segmentAt, List.length_map, List.length_range] at hk
    rw [hsegment, Command.sections_segmentAt, List.getElem?_map, List.getElem?_range hk,
      Option.map_some, Option.some.injEq] at hheader
    rw [← hheader, hoffset]
  · cases hd

/-- Entries that lie one after another end before the next one starts. -/
theorem Tiles.pairwise_end {start stop : Nat} {es : List Entry} (h : Tiles start es stop) :
    es.Pairwise fun a b => a.offset + a.length.toNat ≤ b.offset := by
  induction es generalizing start with
  | nil => exact List.Pairwise.nil
  | cons e es ih =>
    refine List.Pairwise.cons ?_ (ih h.2)
    intro b hb
    rw [h.1]
    exact le_offset h.2 b hb

/-- Records of 68 bytes that lie apart between two places take 68 times their count. -/
theorem SectionDeclaration.bytes_of_pairwise {ds : List SectionDeclaration} {lo hi : Nat}
    (hpairwise : ds.Pairwise fun a b => a.offset + 68 ≤ b.offset)
    (hlo : ∀ d ∈ ds, lo ≤ d.offset) (hhi : ∀ d ∈ ds, d.offset + 68 ≤ hi) (hne : ds ≠ []) :
    lo + 68 * ds.length ≤ hi := by
  induction hpairwise generalizing lo with
  | nil => exact absurd rfl hne
  | @cons d ds hd hds ih =>
    have hfirst := hlo d List.mem_cons_self
    have hlast := hhi d List.mem_cons_self
    rw [List.length_cons]
    by_cases hempty : ds = []
    · rw [hempty, List.length_nil]
      omega
    · have hapart : ∀ b ∈ ds, lo + 68 ≤ b.offset := by
        intro b hb
        exact Nat.le_trans (Nat.add_le_add_right hfirst 68) (hd b hb)
      have hrest := ih hapart (fun b hb => hhi b (List.mem_cons_of_mem _ hb)) hempty
      omega

/-- The commands of a walk are what lies at their offsets, one after another from the start on. -/
theorem Walk.commands_apart {count start : Nat}
    (h : (Walk.run options image count start).failure = none) :
    (∀ c ∈ (Walk.run options image count start).commands,
        EntryAt options image c.header.offset (.decoded c) ∧ start ≤ c.header.offset) ∧
      (Walk.run options image count start).commands.Pairwise
        fun a b => a.header.offset + a.header.length.toNat ≤ b.header.offset := by
  have htiles := Walk.tiles_entries h
  constructor
  · intro c hc
    have hmem := Walk.mem_commands_iff.1 hc
    exact ⟨Walk.entryAt_of_mem hmem, htiles.le_offset _ hmem⟩
  · refine List.Pairwise.filterMap _ (fun a b hle c hc d hd => ?_) htiles.pairwise_end
    rw [Entry.command?_eq_some_iff.1 hc, Entry.command?_eq_some_iff.1 hd] at hle
    exact hle

/-- The records of the sections of commands are in file order and apart from each other. -/
theorem Command.pairwise_declarations {commands : List Command} {start : Nat}
    (hentry : ∀ c ∈ commands,
      EntryAt options image c.header.offset (.decoded c) ∧ start ≤ c.header.offset)
    (hpairwise : commands.Pairwise
      fun a b => a.header.offset + a.header.length.toNat ≤ b.header.offset) :
    (commands.flatMap declarations).Pairwise fun a b => a.offset + 68 ≤ b.offset := by
  refine List.pairwise_flatMap.2 ⟨?_, ?_⟩
  · intro c hc
    unfold Command.declarations
    split
    · exact SectionDeclaration.pairwise_ofHeaders _ _ _
    · exact List.Pairwise.nil
  · refine hpairwise.imp_of_mem ?_
    intro a b ha hb hle x hx y hy
    obtain ⟨-, -, hend, -⟩ := Command.mem_declarations (hentry a ha).1 hx
    obtain ⟨-, hstart, -, -⟩ := Command.mem_declarations (hentry b hb).1 hy
    omega

/-- The records of the sections take no more bytes than there are, with the first record of a
segment before them. -/
theorem Command.declarations_bytes {commands : List Command} {start : Nat}
    (hentry : ∀ c ∈ commands,
      EntryAt options image c.header.offset (.decoded c) ∧ start ≤ c.header.offset)
    (hpairwise : commands.Pairwise
      fun a b => a.header.offset + a.header.length.toNat ≤ b.header.offset)
    (hne : commands.flatMap declarations ≠ []) :
    start + 56 + 68 * (commands.flatMap declarations).length ≤ image.size := by
  refine SectionDeclaration.bytes_of_pairwise (pairwise_declarations hentry hpairwise)
    (fun d hd => ?_) (fun d hd => ?_) hne
  all_goals
    obtain ⟨c, hc, hmem⟩ := List.mem_flatMap.1 hd
    obtain ⟨hat, hstart⟩ := hentry c hc
    obtain ⟨-, hlo, hhi, -⟩ := Command.mem_declarations hat hmem
  · omega
  · have hend : c.header.offset + c.header.length.toNat ≤ image.size := hat.end_le_size
    omega

namespace Image

variable {img : Image}

/-- The commands start behind the header. -/
theorem start_eq_of_readHeader {header : Header} {start : Nat}
    (h : (readHeader image).result = .ok (header, start)) : start = 28 :=
  Header.uses_read.cursor_eq (Nat.zero_le _) (result_readHeader_eq_ok_iff.1 h)

/-- The commands of an image are what lies at their offsets, one after another behind the header. -/
theorem commands_of_parse (h : parse image options = .ok img) :
    (∀ c ∈ img.commands, EntryAt options image c.header.offset (.decoded c) ∧
        28 ≤ c.header.offset) ∧
      img.commands.Pairwise
        fun a b => a.header.offset + a.header.length.toNat ≤ b.header.offset := by
  obtain ⟨header, start, _, _, _, hheader, hfailure, -, -, -, rfl⟩ := parse_eq_ok_iff.1 h
  obtain rfl := start_eq_of_readHeader hheader
  exact Walk.commands_apart hfailure

/-- A command of an image whose kind has a given shape fits and has the body of that shape. -/
theorem body_of_parse (h : parse image options = .ok img) {c : Command} (hc : c ∈ img.commands)
    {shape : CommandShape} (hshape : c.id.shape? = some shape) :
    shape.Fits options image c.header.offset (lengthAt image c.header.offset).toNat ∧
      c.body = Command.bodyAt options image c.header shape := by
  obtain ⟨-, hown, hfits, hbody⟩ := ((commands_of_parse h).1 c hc).1.body_eq
  rw [hshape, Option.some.injEq] at hown
  rw [← hown] at hfits hbody
  exact ⟨hfits, hbody⟩

/-- If a shape belongs to one kind of command, the bodies of that shape are those of the commands of
that kind. -/
theorem body_cases_of_parse (h : parse image options = .ok img) {c : Command}
    (hc : c ∈ img.commands) {id : CommandId} {shape : CommandShape} (hid : id.OwnsShape shape) :
    (c.id = id ∧ c.body = Command.bodyAt options image c.header shape) ∨
      (c.id ≠ id ∧ c.body.shape ≠ shape) := by
  by_cases heq : c.id = id
  · exact Or.inl ⟨heq, (body_of_parse h hc ((hid c.id).2 heq)).2⟩
  · obtain ⟨-, hshape, -, -⟩ := ((commands_of_parse h).1 c hc).1.body_eq
    refine Or.inr ⟨heq, fun hbody => heq ?_⟩
    rw [hbody] at hshape
    exact (hid c.id).1 hshape

/-- The records of the sections are in file order and apart from each other. -/
theorem pairwise_declarations (h : parse image options = .ok img) :
    img.declarations.Pairwise fun a b => a.offset + 68 ≤ b.offset :=
  Command.pairwise_declarations (commands_of_parse h).1 (commands_of_parse h).2

/-- As many sections are declared as the segment commands say together. -/
theorem length_declarations (h : parse image options = .ok img) :
    img.declarations.length = img.declaredCount := by
  obtain ⟨hentry, -⟩ := commands_of_parse h
  unfold declarations declaredCount
  generalize img.commands = commands at hentry
  induction commands with
  | nil => rfl
  | cons c cs ih =>
    have hrest := ih fun c hc => hentry c (List.mem_cons_of_mem _ hc)
    rw [List.flatMap_cons, List.length_append, hrest, Command.declarations]
    cases hs : c.segment? with
    | none => simp [List.filterMap_cons_none hs]
    | some s =>
      obtain ⟨-, hcount, -⟩ := (hentry c List.mem_cons_self).1.segment hs
      simp [List.filterMap_cons_some hs, hcount]

/-- The records of the sections, if there are any, take no more bytes than there are, those before
them counted. -/
theorem declaredCount_bytes (h : parse image options = .ok img) :
    img.declaredCount = 0 ∨ 84 + 68 * img.declaredCount ≤ image.size := by
  obtain ⟨hentry, hpairwise⟩ := commands_of_parse h
  rw [← length_declarations h]
  by_cases hne : img.declarations = []
  · rw [hne]
    exact Or.inl rfl
  · exact Or.inr (Command.declarations_bytes hentry hpairwise hne)

end Image

/-! ## The sections of a segment table -/

/-- Sections say the name they are given for their segment. -/
theorem Section.segment_of_mem_ofHeaders {segment : String} {number : Nat}
    {hs : List SectionHeader} {s : Section} (h : s ∈ ofHeaders segment number hs) :
    s.segment = segment := by
  induction hs generalizing number with
  | nil => cases h
  | cons header hs ih =>
    rw [ofHeaders, List.mem_cons] at h
    rcases h with rfl | h
    · rfl
    · exact ih h

namespace SegmentTable

/-- The sections of a segment say its name. -/
theorem segment_of_mem_build {position number : Nat} {cs : List SegmentCommand} {segment : Segment}
    (h : segment ∈ (build options image position number cs).segments) :
    ∀ s ∈ segment.sections, s.segment = segment.name := by
  induction cs generalizing position number with
  | nil => cases h
  | cons c cs ih =>
    cases hread : Segment.readContents options image c with
    | error e =>
      rw [build, hread] at h
      cases h
    | ok contents =>
      rw [build_cons hread] at h
      rcases List.mem_cons.1 h with rfl | h
      · intro s hs
        exact Section.segment_of_mem_ofHeaders hs
      · exact ih h

/-- The sections of a table are those that the commands declare, numbered in file order. -/
theorem flatMap_sections_build {position number : Nat} {commands : List Command}
    (h : (build options image position number
      (commands.filterMap Command.segment?)).failure = none) :
    (build options image position number (commands.filterMap Command.segment?)).segments.flatMap
        Segment.sections =
      ((commands.flatMap Command.declarations).zipIdx number).map
        fun (d, n) => d.toSection n := by
  induction commands generalizing position number with
  | nil => rfl
  | cons c cs ih =>
    cases hs : c.segment? with
    | none =>
      have hnone : c.declarations = [] := by rw [Command.declarations, hs]
      rw [List.filterMap_cons_none hs] at h ⊢
      rw [List.flatMap_cons, hnone, List.nil_append, ih h]
    | some s =>
      have hsome : c.declarations =
          SectionDeclaration.ofHeaders s (c.header.offset + 56) s.sections := by
        rw [Command.declarations, hs]
      rw [List.filterMap_cons_some hs] at h ⊢
      cases hread : Segment.readContents options image s with
      | error e =>
        rw [build, hread] at h
        cases h
      | ok contents =>
        rw [build_cons hread] at h ⊢
        rw [List.flatMap_cons, ih h, List.flatMap_cons, hsome, List.zipIdx_append, List.map_append,
          SectionDeclaration.map_toSection_ofHeaders, SectionDeclaration.length_ofHeaders]
        rfl

end SegmentTable

namespace Image

variable {img : Image}

/-- The sections of an image are those that its commands declare, numbered in file order. -/
theorem sections_of_parse (h : parse image options = .ok img) :
    img.sections = (img.declarations.zipIdx 1).map fun (d, n) => d.toSection n := by
  obtain ⟨table, rfl, hfailure, hsegments, -⟩ := table_of_parse h
  rw [sections, hsegments]
  exact SegmentTable.flatMap_sections_build hfailure

/-- The section of a number is at its place among the sections. -/
theorem getElem?_of_section? (h : parse image options = .ok img) {number : Nat} {s : Section}
    (hs : img.section? number = some s) : 1 ≤ number ∧ img.sections[number - 1]? = some s := by
  have hnumber : number ≠ 0 := by
    rintro rfl
    rw [section?_zero] at hs
    cases hs
  exact ⟨Nat.one_le_iff_ne_zero.2 hnumber, section?_eq_getElem? h hnumber ▸ hs⟩

/-- There are as many sections as the segment commands say together. -/
theorem length_sections (h : parse image options = .ok img) :
    img.sections.length = img.declaredCount := by
  rw [sections_of_parse h, List.length_map, List.length_zipIdx, length_declarations h]

/-- The sections of an image are numbered along their records in the file. -/
structure Numbered (image : ByteArray) (img : Image) : Prop where
  /-- All records of sections find room in the file. -/
  bytes : 68 * img.declaredCount ≤ image.size
  /-- A counter of 32 bits that starts at one and is moved on at every section does not wrap. -/
  counter : image.size < 68 * UInt32.size → img.declaredCount + 1 < UInt32.size
  /-- There are as many sections as the segment commands say together. -/
  length_sections : img.sections.length = img.declaredCount
  /-- They are numbered from one on, across segments. -/
  numbers : img.sections.map Section.number = List.range' 1 img.declaredCount
  /-- There is a section of every number up to their count, and of no other. -/
  isSome_section?_iff : ∀ number,
    (img.section? number).isSome ↔ 1 ≤ number ∧ number ≤ img.declaredCount
  /-- The table of places leads to the sections in their order. -/
  places_eq : img.places.map (SegmentTable.sectionAt? img.segments) = img.sections.map some
  /-- So the section of a number is the one at its place among the sections. -/
  lookup_eq : ∀ number, 1 ≤ number → img.section? number = img.sections[number - 1]?
  /-- It is the first of the sections that says this number. -/
  find?_eq : ∀ number, img.section? number = img.sections.find? fun s => s.number = number
  /-- It is made from the record of that number. -/
  declared : ∀ number s, img.section? number = some s →
    ∃ d, img.declarations[number - 1]? = some d ∧ s = d.toSection number
  /-- The records are in file order and apart from each other. -/
  pairwise_declarations : img.declarations.Pairwise fun a b => a.offset + 68 ≤ b.offset
  /-- They are records of segment commands, and say what is stored in the file. -/
  stored : ∀ d ∈ img.declarations,
    (∃ c ∈ img.commands, c.segment? = some d.owner ∧ c.header.offset + 56 ≤ d.offset ∧
        d.offset + 68 ≤ c.header.offset + c.header.length.toNat) ∧
      d.header = Command.sectionAt image d.offset
  /-- A section says the name of the segment that holds it. -/
  owner : ∀ number s, img.section? number = some s →
    ∃ segment ∈ img.segments, s ∈ segment.sections ∧ s.segment = segment.name

/-- **The sections of an image have one numbering**, along their records in the file. -/
theorem numbered_of_parse (h : parse image options = .ok img) : Numbered image img := by
  have hlength := length_sections h
  have hbytes := declaredCount_bytes h
  have hbits : UInt32.size = 4294967296 := rfl
  have hplace : ∀ number, 1 ≤ number → img.section? number = img.sections[number - 1]? :=
    fun number hnumber => section?_eq_getElem? h (Nat.one_le_iff_ne_zero.1 hnumber)
  exact {
    bytes := by omega
    counter := fun hsize => by omega
    length_sections := hlength
    numbers := hlength ▸ map_number_sections h
    isSome_section?_iff := fun number => by
      constructor
      · intro hsome
        obtain ⟨s, hs⟩ := Option.isSome_iff_exists.1 hsome
        obtain ⟨hnumber, hget⟩ := getElem?_of_section? h hs
        have hlt := (List.getElem?_eq_some_iff.1 hget).1
        omega
      · rintro ⟨hnumber, hle⟩
        rw [hplace number hnumber, List.getElem?_eq_getElem (by omega)]
        rfl
    places_eq := map_sectionAt?_places h
    lookup_eq := hplace
    find?_eq := section?_eq_find? h
    declared := fun number s hs => by
      obtain ⟨hnumber, hget⟩ := getElem?_of_section? h hs
      rw [sections_of_parse h, List.getElem?_map, List.getElem?_zipIdx, Option.map_map,
        Option.map_eq_some_iff] at hget
      obtain ⟨d, hd, rfl⟩ := hget
      refine ⟨d, hd, ?_⟩
      rw [Function.comp_apply, Nat.add_sub_cancel' hnumber]
    pairwise_declarations := pairwise_declarations h
    stored := fun d hd => by
      obtain ⟨c, hc, hmem⟩ := List.mem_flatMap.1 hd
      obtain ⟨hsegment, hlo, hhi, hheader⟩ :=
        Command.mem_declarations ((commands_of_parse h).1 c hc).1 hmem
      exact ⟨⟨c, hc, hsegment, hlo, hhi⟩, hheader⟩
    owner := fun number s hs => by
      obtain ⟨-, hget⟩ := getElem?_of_section? h hs
      obtain ⟨segment, hsegment, hmem⟩ := List.mem_flatMap.1 (List.mem_of_getElem? hget)
      obtain ⟨table, rfl, -, hbuilt, -⟩ := table_of_parse h
      exact ⟨segment, hsegment, hmem,
        SegmentTable.segment_of_mem_build (hbuilt ▸ hsegment) s hmem⟩ }

/-- The bytes of a segment command with a name of one letter and sections without a name. -/
def segmentBytes (letter count : UInt8) : List UInt8 :=
  [1, 0, 0, 0, 56 + 68 * count, 0, 0, 0, letter] ++ List.replicate 39 0 ++ [count, 0, 0, 0] ++
    List.replicate (4 + 68 * count.toNat) 0

/-- An image with a segment of one section, one without sections and one of two sections. -/
def threeSegments : ByteArray := ⟨(
  [0xCE, 0xFA, 0xED, 0xFE, 12, 0, 0, 0, 9, 0, 0, 0, 2, 0, 0, 0, 3, 0, 0, 0, 0x74, 1, 0, 0,
    0, 0, 0, 0] ++ segmentBytes 0x41 1 ++ segmentBytes 0x42 0 ++ segmentBytes 0x43 2).toArray⟩

theorem threeSegments_numbered :
    ∃ img, parse threeSegments = .ok img ∧ Numbered threeSegments img ∧
      img.declarations.map SectionDeclaration.offset = [84, 264, 332] ∧
      (img.section? 2).map Section.segment = some "C" := by
  obtain ⟨img, himg, hoffsets, hsegment⟩ :
      ∃ img, parse threeSegments = .ok img ∧
        img.declarations.map SectionDeclaration.offset = [84, 264, 332] ∧
        (img.section? 2).map Section.segment = some "C" := by
    apply exists_of_parse_check
    decide +kernel
  exact ⟨img, himg, numbered_of_parse himg, hoffsets, hsegment⟩

end Image

end MachImage
