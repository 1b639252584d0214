import MachImage.Proofs.First
import MachImage.Proofs.Image.Numbering
import Mathlib.Data.Nat.Bitwise

/-!
# The symbol at an address

An address is in a table of stubs or pointers if the first segment that covers
it has a section of one of five types that covers it; the first such section is
the table (`Image.Selects`).  The number of the entry is that of the first entry
of the table plus the count of entries before the address.  `Image.resolve?`
finds exactly the symbol that this entry of the indirect symbol table stands for
(`Image.resolvesByTables_of_parse`).  Ranges and numbers are those of arithmetic
without bounds: a range may reach or pass the last address.

Only the first segment is looked at, and in it only the first table.  So a slot
of a table that lies behind another one, behind another segment or outside of its
own segment is not found (`Image.hiddenPointers_missed`); every other one is
(`Image.slots_found`).
-/

namespace MachImage

variable {options : Options} {image : ByteArray} {img : Image} {address : UInt32}

/-! ## Ranges of addresses -/

/-- An address lies in the range of a given size from a start on. -/
def Covers (start size address : UInt32) : Prop :=
  start.toNat ≤ address.toNat ∧ address.toNat < start.toNat + size.toNat

instance (start size address : UInt32) : Decidable (Covers start size address) :=
  inferInstanceAs (Decidable (_ ∧ _))

theorem inRange_eq_true_iff {start size : UInt32} :
    inRange start size address = true ↔ Covers start size address := by
  unfold inRange Covers
  rw [Bool.and_eq_true, decide_eq_true_iff, decide_eq_true_iff, UInt32.le_iff_toNat_le,
    UInt32.lt_iff_toNat_lt]
  constructor
  · rintro ⟨hstart, hdistance⟩
    rw [UInt32.toNat_sub_of_le _ _ (UInt32.le_iff_toNat_le.2 hstart)] at hdistance
    omega
  · rintro ⟨hstart, hend⟩
    rw [UInt32.toNat_sub_of_le _ _ (UInt32.le_iff_toNat_le.2 hstart)]
    omega

/-- The addresses of a segment. -/
def Segment.Covers (s : Segment) (address : UInt32) : Prop :=
  MachImage.Covers s.address s.size address

instance (s : Segment) (address : UInt32) : Decidable (s.Covers address) :=
  inferInstanceAs (Decidable (MachImage.Covers ..))

namespace Section

/-- The addresses of a section. -/
def Covers (t : Section) (address : UInt32) : Prop := MachImage.Covers t.address t.size address

instance (t : Section) (address : UInt32) : Decidable (t.Covers address) :=
  inferInstanceAs (Decidable (MachImage.Covers ..))

/-! ## Tables and their slots -/

/-- The types of sections whose entries are named through the indirect symbol table. -/
def tableTypes : List SectionType :=
  [.nonLazySymbolPointers, .lazySymbolPointers, .lazyDylibSymbolPointers,
    .threadLocalVariablePointers, .symbolStubs]

/-- A section is a table if its entries are named through the indirect symbol table. -/
def IsTable (t : Section) : Prop := ∃ type ∈ tableTypes, t.type = some type

instance (t : Section) : Decidable t.IsTable := inferInstanceAs (Decidable (∃ _ ∈ _, _))

/-- The size of an entry of a table: stubs say theirs, and pointers take four bytes. -/
def entrySize (t : Section) : UInt32 :=
  if t.type = some .symbolStubs then t.reserved2 else 4

/-- How many entries of a table lie before an address. -/
def slot (t : Section) (address : UInt32) : Nat :=
  (address.toNat - t.address.toNat) / t.entrySize.toNat

/-- The number in the indirect symbol table of the entry at an address of a table. -/
def indirectNumber (t : Section) (address : UInt32) : Nat :=
  t.reserved1.toNat + t.slot address

theorem isIndirect_iff (type : SectionType) : type.isIndirect = true ↔ type ∈ tableTypes := by
  cases type <;> decide

/-- A section has a stride exactly if it is a table, and then the stride is the size of an entry. -/
theorem stride_eq_some_iff {t : Section} {stride : UInt32} :
    t.stride = some stride ↔ t.IsTable ∧ t.entrySize = stride := by
  unfold Section.stride IsTable entrySize
  split
  · rename_i hstubs
    rw [if_pos hstubs, Option.some.injEq]
    exact (and_iff_right ⟨.symbolStubs, by decide, hstubs⟩).symm
  · rename_i type hother htype
    rw [htype, if_neg fun h => hother (Option.some.inj h), Option.ite_none_right_eq_some,
      Option.some.injEq, isIndirect_iff]
    exact and_congr_left fun _ => ⟨fun hmem => ⟨type, hmem, rfl⟩, fun ⟨_, hmem, heq⟩ =>
      Option.some.inj heq ▸ hmem⟩
  · rename_i hnone
    rw [hnone]
    constructor
    · intro h
      cases h
    · rintro ⟨⟨_, _, htype⟩, _⟩
      cases htype

theorem isSome_stride_iff {t : Section} : t.stride.isSome = true ↔ t.IsTable := by
  rw [Option.isSome_iff_exists]
  constructor
  · rintro ⟨stride, h⟩
    exact (stride_eq_some_iff.1 h).1
  · exact fun h => ⟨_, stride_eq_some_iff.2 ⟨h, rfl⟩⟩

/-- The entry at an address of a table is one of those that begin inside the table. -/
theorem slot_lt {t : Section} (h : t.Covers address) (hsize : t.entrySize ≠ 0) :
    t.slot address < (t.size.toNat + (t.entrySize.toNat - 1)) / t.entrySize.toNat := by
  obtain ⟨hstart, hend⟩ := h
  have hpos : 0 < t.entrySize.toNat := Nat.pos_of_ne_zero fun h0 => hsize (UInt32.toNat_inj.1 h0)
  -- the distance is less than the size, so one entry more is at most the size, rounded up
  calc t.slot address
      < (address.toNat - t.address.toNat + t.entrySize.toNat) / t.entrySize.toNat := by
        rw [Nat.add_div_right _ hpos]
        exact Nat.lt_succ_self _
    _ ≤ (t.size.toNat + (t.entrySize.toNat - 1)) / t.entrySize.toNat :=
        Nat.div_le_div_right (by omega)

end Section

/-! ## What an image takes from its commands -/

/-- A segment is made from a command: it has the range of the command and a section for each of its
records. -/
def Segment.MadeFrom (c : SegmentCommand) (s : Segment) : Prop :=
  s.address = c.address ∧ s.size = c.size ∧
    List.Forall₂ (fun h t => ∃ number, t = Section.ofHeader number s.name h) c.sections s.sections

/-- Words take four bytes each. -/
theorem LittleEndian.length_words_le (bs : List UInt8) : 4 * (words bs).length ≤ bs.length := by
  induction bs using words.induct with
  | case1 a b c d bs ih =>
    rw [words, List.length_cons, List.length_cons, List.length_cons, List.length_cons,
      List.length_cons]
    omega
  | case2 bs h => simp [words]

theorem Command.length_indirectAt_lt (image : ByteArray) (offset count : UInt32) :
    (indirectAt image offset count).length < UInt32.size := by
  unfold indirectAt
  split
  · decide
  · have hwords :=
      LittleEndian.length_words_le (window image offset.toNat (4 * count.toNat))
    rw [length_window] at hwords
    have hcount := count.toNat_lt
    have hsize : UInt32.size = 2 ^ 32 := rfl
    omega

namespace Image

theorem segments_made_of_parse (h : parse image options = .ok img) :
    List.Forall₂ Segment.MadeFrom (img.commands.filterMap Command.segment?) img.segments := by
  refine (segments_of_parse h).imp fun c s => ?_
  rintro ⟨number, contents, -, rfl⟩
  exact ⟨rfl, rfl, Section.forall₂_ofHeaders _ _ _⟩

/-- A command with an indirect symbol table has the one that it says where to find. -/
theorem dysymtab_of_parse (h : parse image options = .ok img) {c : Command}
    (hc : c ∈ img.commands) {table : DysymtabCommand} (htable : c.dysymtab? = some table) :
    table = Command.dysymtabAt image c.header.offset := by
  obtain ⟨-, -, -, hbody⟩ := ((commands_of_parse h).1 c hc).1.body_eq
  unfold Command.dysymtab? at htable
  split at htable
  next table' hcase =>
    cases htable
    rw [hcase] at hbody
    exact CommandBody.dysymtab.inj hbody
  · cases htable

theorem indirectSymbols_of_parse (h : parse image options = .ok img) :
    img.indirectSymbols = (indirectTable img.commands).toArray := by
  obtain ⟨_, _, _, _, _, -, -, -, -, -, rfl⟩ := parse_eq_ok_iff.1 h
  rfl

/-- The count of the entries is a word, so that 32 bits hold the number of every entry. -/
theorem size_indirectSymbols_lt (h : parse image options = .ok img) :
    img.indirectSymbols.size < UInt32.size := by
  rw [indirectSymbols_of_parse h, List.size_toArray, indirectTable]
  cases hfind : img.commands.findSome? Command.dysymtab? with
  | none => decide
  | some table =>
    obtain ⟨c, hc, htable⟩ := List.exists_of_findSome?_eq_some hfind
    rw [dysymtab_of_parse h hc htable]
    dsimp only [Command.dysymtabAt]
    exact Command.length_indirectAt_lt _ _ _

/-! ## From an address to an entry -/

/-- The table an address lies in: the first one that covers it, in the first segment that does. -/
def Selects (img : Image) (address : UInt32) (t : Section) : Prop :=
  ∃ s, First (fun s => s.Covers address) img.segments s ∧
    First (fun t => t.Covers address ∧ t.IsTable) s.sections t

theorem Selects.holds {t : Section} (h : img.Selects address t) :
    t.Covers address ∧ t.IsTable := by
  obtain ⟨s, -, ht⟩ := h
  exact ht.holds

theorem tableAt?_eq_some_iff {t : Section} :
    img.tableAt? address = some t ↔ img.Selects address t := by
  unfold tableAt? Selects
  rw [Option.bind_eq_some_iff]
  refine exists_congr fun s => and_congr
    (find?_eq_some_iff_first fun s => inRange_eq_true_iff) (find?_eq_some_iff_first fun t => ?_)
  rw [Bool.and_eq_true, Section.isSome_stride_iff]
  exact and_congr_left fun _ => inRange_eq_true_iff

/-- The place of the entry at an address of a table, as long as entries have a size and 32 bits hold
the place. -/
theorem indirectPlace?_eq_some_iff {t : Section} (hcovers : t.Covers address)
    (htable : t.IsTable) {place : Nat} :
    indirectPlace? t address = some place ↔
      t.entrySize ≠ 0 ∧ t.indirectNumber address < UInt32.size ∧
        t.indirectNumber address = place := by
  have hslot : ((address - t.address) / t.entrySize).toNat = t.slot address := by
    rw [UInt32.toNat_div, UInt32.toNat_sub_of_le _ _ (UInt32.le_iff_toNat_le.2 hcovers.1)]
    rfl
  unfold indirectPlace? Section.indirectNumber
  rw [Section.stride_eq_some_iff.2 ⟨htable, rfl⟩, Option.bind_some, hslot]
  dsimp only
  rw [Option.ite_none_left_eq_some, Option.ite_none_right_eq_some, Option.some.injEq]

/-- An entry of the indirect symbol table says that the symbol was local, or absolute. -/
def IsMarked (entry : UInt32) : Prop :=
  entry.toNat.testBit 31 = true ∨ entry.toNat.testBit 30 = true

instance (entry : UInt32) : Decidable (IsMarked entry) := inferInstanceAs (Decidable (_ ∨ _))

theorem and_noSymbolBits_eq_zero_iff {entry : UInt32} :
    entry &&& noSymbolBits = 0 ↔ ¬ IsMarked entry := by
  have hbits : noSymbolBits.toNat = 2 ^ 31 ||| 2 ^ 30 := rfl
  rw [← UInt32.toNat_inj, UInt32.toNat_and, hbits, Nat.and_or_distrib_left, Nat.and_two_pow,
    Nat.and_two_pow, IsMarked]
  cases entry.toNat.testBit 31 <;> cases entry.toNat.testBit 30 <;> simp

theorem symbolOfEntry?_eq_some_iff {entry : UInt32} {symbol : Symbol} :
    img.symbolOfEntry? entry = some symbol ↔
      ¬ IsMarked entry ∧ img.symbols[entry.toNat]? = some symbol := by
  unfold symbolOfEntry?
  rw [Option.ite_none_right_eq_some, and_noSymbolBits_eq_zero_iff]

/-- The entry at an address of a table is there and is the number of a symbol. -/
def FilledSlot (img : Image) (t : Section) (address entry : UInt32) : Prop :=
  t.entrySize ≠ 0 ∧ img.indirectSymbols[t.indirectNumber address]? = some entry ∧
    ¬ IsMarked entry ∧ entry.toNat < img.symbols.size

instance (img : Image) (t : Section) (address entry : UInt32) :
    Decidable (img.FilledSlot t address entry) :=
  inferInstanceAs (Decidable (_ ∧ _ ∧ _ ∧ _))

/-- A symbol is found at an address exactly through the entry of the table that the address lies
in. -/
theorem resolve?_eq_some_iff {r : Resolved} :
    img.resolve? address = some r ↔
      ∃ t entry, img.Selects address t ∧ t.indirectNumber address < UInt32.size ∧
        img.FilledSlot t address entry ∧ r.address = address ∧
        img.symbols[entry.toNat]? = some r.symbol := by
  unfold resolve?
  simp only [Option.bind_eq_bind, Option.bind_eq_some_iff, tableAt?_eq_some_iff,
    symbolOfEntry?_eq_some_iff]
  constructor
  · rintro ⟨t, hselects, place, hplace, entry, hentry, symbol, ⟨hmarked, hsymbol⟩, hr⟩
    obtain ⟨hcovers, htable⟩ := hselects.holds
    obtain ⟨hsize, hlt, rfl⟩ := (indirectPlace?_eq_some_iff hcovers htable).1 hplace
    cases hr
    exact ⟨t, entry, hselects, hlt,
      ⟨hsize, hentry, hmarked, (Array.getElem?_eq_some_iff.1 hsymbol).1⟩, rfl, hsymbol⟩
  · rintro ⟨t, entry, hselects, hlt, ⟨hsize, hentry, hmarked, -⟩, haddress, hsymbol⟩
    obtain ⟨hcovers, htable⟩ := hselects.holds
    refine ⟨t, hselects, _, (indirectPlace?_eq_some_iff hcovers htable).2 ⟨hsize, hlt, rfl⟩, entry,
      hentry, r.symbol, ⟨hmarked, hsymbol⟩, ?_⟩
    cases r
    cases haddress
    rfl

/-- What is found in a table hangs on the slot alone. -/
theorem map_symbol_resolve?_eq_some_iff {t : Section} (h : img.Selects address t)
    {symbol : Symbol} :
    (img.resolve? address).map Resolved.symbol = some symbol ↔
      t.indirectNumber address < UInt32.size ∧
        ∃ entry, img.FilledSlot t address entry ∧ img.symbols[entry.toNat]? = some symbol := by
  rw [Option.map_eq_some_iff]
  constructor
  · rintro ⟨r, hr, rfl⟩
    obtain ⟨t', entry, hselects, hlt, hfilled, -, hsymbol⟩ := resolve?_eq_some_iff.1 hr
    obtain rfl : t = t' :=
      Option.some.inj ((tableAt?_eq_some_iff.2 h).symm.trans (tableAt?_eq_some_iff.2 hselects))
    exact ⟨hlt, entry, hfilled, hsymbol⟩
  · rintro ⟨hlt, entry, hfilled, hsymbol⟩
    exact ⟨⟨address, symbol⟩,
      resolve?_eq_some_iff.2 ⟨t, entry, h, hlt, hfilled, rfl, hsymbol⟩, rfl⟩

/-! ## Every address -/

/-- What is found at the addresses of an image is what its tables say. -/
structure ResolvesByTables (img : Image) : Prop where
  /-- The segments are those of the commands and the sections those of the records, in order. -/
  segments_made : List.Forall₂ Segment.MadeFrom (img.commands.filterMap Command.segment?)
    img.segments
  /-- A symbol is found exactly through the entry of the table that the address lies in. -/
  resolve_iff : ∀ address r, img.resolve? address = some r ↔
    ∃ t entry, img.Selects address t ∧ t.indirectNumber address < UInt32.size ∧
      img.FilledSlot t address entry ∧ r.address = address ∧
      img.symbols[entry.toNat]? = some r.symbol
  /-- The entry is one of those that begin inside the table. -/
  number_lt : ∀ address t, img.Selects address t → t.entrySize ≠ 0 →
    t.indirectNumber address <
      t.reserved1.toNat + (t.size.toNat + (t.entrySize.toNat - 1)) / t.entrySize.toNat
  /-- In one slot of a table either every address has the same symbol or none has any. -/
  same_slot : ∀ address address' t, img.Selects address t → img.Selects address' t →
    t.slot address = t.slot address' →
      (img.resolve? address).map Resolved.symbol = (img.resolve? address').map Resolved.symbol

/-- **The symbol at an address is the one that the indirect symbol table names.** -/
theorem resolvesByTables_of_parse (h : parse image options = .ok img) : ResolvesByTables img where
  segments_made := segments_made_of_parse h
  resolve_iff _ _ := resolve?_eq_some_iff
  number_lt address t hselects hsize :=
    Nat.add_lt_add_left (Section.slot_lt hselects.holds.1 hsize) _
  same_slot address address' t hselects hselects' hslot := by
    have hnumber : t.indirectNumber address = t.indirectNumber address' :=
      congrArg (t.reserved1.toNat + ·) hslot
    refine Option.ext fun symbol => ?_
    rw [map_symbol_resolve?_eq_some_iff hselects, map_symbol_resolve?_eq_some_iff hselects']
    unfold FilledSlot
    rw [hnumber]

/-- An image with two stubs of four bytes at the end of the address space, the second of which
stands for its only symbol.  The segment and the section say that they reach beyond. -/
def lastStubs : ByteArray := ⟨#[
  0xCE, 0xFA, 0xED, 0xFE, 12, 0, 0, 0, 9, 0, 0, 0, 2, 0, 0, 0, 3, 0, 0, 0, 228, 0, 0, 0, 0, 0, 0, 0,
  1, 0, 0, 0, 124, 0, 0, 0, 0x5F, 0x5F, 0x54, 0, 0, 0, 0, 0, 0, 0, 0, 0, 0, 0, 0, 0,
  0, 0xF0, 0xFF, 0xFF, 0, 32, 0, 0, 0, 0, 0, 0, 0, 0, 0, 0, 5, 0, 0, 0, 5, 0, 0, 0, 1, 0, 0, 0,
  0, 0, 0, 0,
  0x5F, 0x5F, 0x73, 0, 0, 0, 0, 0, 0, 0, 0, 0, 0, 0, 0, 0,
  0x5F, 0x5F, 0x54, 0, 0, 0, 0, 0, 0, 0, 0, 0, 0, 0, 0, 0,
  0xF8, 0xFF, 0xFF, 0xFF, 16, 0, 0, 0, 0, 0, 0, 0, 2, 0, 0, 0, 0, 0, 0, 0, 0, 0, 0, 0,
  8, 0, 0, 0x80, 0, 0, 0, 0, 4, 0, 0, 0,
  2, 0, 0, 0, 24, 0, 0, 0, 0, 1, 0, 0, 1, 0, 0, 0, 12, 1, 0, 0, 4, 0, 0, 0,
  11, 0, 0, 0, 80, 0, 0, 0, 0, 0, 0, 0, 0, 0, 0, 0, 0, 0, 0, 0, 0, 0, 0, 0, 0, 0, 0, 0, 0, 0, 0, 0,
  0, 0, 0, 0, 0, 0, 0, 0, 0, 0, 0, 0, 0, 0, 0, 0, 0, 0, 0, 0, 0, 0, 0, 0, 16, 1, 0, 0, 2, 0, 0, 0,
  0, 0, 0, 0, 0, 0, 0, 0, 0, 0, 0, 0, 0, 0, 0, 0,
  1, 0, 0, 0, 1, 0, 0, 0, 0, 0, 0, 0,
  0, 0x61, 0, 0,
  0, 0, 0, 0x80, 0, 0, 0, 0]⟩

theorem lastStubs_resolvesByTables :
    ∃ img, parse lastStubs = .ok img ∧ ResolvesByTables img ∧
      (img.resolve? 0xFFFFFFFD).map Resolved.symbol =
        (img.resolve? 0xFFFFFFFF).map Resolved.symbol ∧
      (img.resolve? 0xFFFFFFFF).map (fun r => r.symbol.name) = some "a" ∧
      img.resolve? 0xFFFFFFF8 = none ∧ img.resolve? 0 = none := by
  obtain ⟨img, himg, ⟨t, ht, ht'⟩, hfound, hlocal, hzero⟩ :
      ∃ img, parse lastStubs = .ok img ∧
        (∃ t ∈ img.sections, img.tableAt? 0xFFFFFFFD = some t ∧
          img.tableAt? 0xFFFFFFFF = some t ∧ t.slot 0xFFFFFFFD = t.slot 0xFFFFFFFF) ∧
        (img.resolve? 0xFFFFFFFF).map (fun r => r.symbol.name) = some "a" ∧
        img.resolve? 0xFFFFFFF8 = none ∧ img.resolve? 0 = none := by
    apply exists_of_parse_check
    decide +kernel
  have hresolves := resolvesByTables_of_parse himg
  obtain ⟨hselects, hselects', hslot⟩ := ht'
  exact ⟨img, himg, hresolves,
    hresolves.same_slot _ _ t (tableAt?_eq_some_iff.1 hselects) (tableAt?_eq_some_iff.1 hselects')
      hslot,
    hfound, hlocal, hzero⟩

/-! ## Tables that are missed -/

/-- No slot is missed at an address: if some segment covers it and some table has a filled slot
there, a symbol is found. -/
def MissesNoSlot (img : Image) (address : UInt32) : Prop :=
  ∀ s ∈ img.segments, ∀ t ∈ s.sections, ∀ entry, t.IsTable → t.Covers address →
    (∃ r ∈ img.segments, r.Covers address) → img.FilledSlot t address entry →
      (img.resolve? address).isSome = true

/-- A slot of a table with a given entry is overlooked at an address. -/
def Overlooks (img : Image) (address entry : UInt32) : Prop :=
  img.resolve? address = none ∧ (∃ r ∈ img.segments, r.Covers address) ∧
    ∃ s ∈ img.segments, ∃ t ∈ s.sections, t.IsTable ∧ t.Covers address ∧
      img.FilledSlot t address entry

instance (img : Image) (address entry : UInt32) : Decidable (img.Overlooks address entry) :=
  inferInstanceAs (Decidable (_ ∧ _ ∧ _))

theorem Overlooks.not_missesNoSlot {entry : UInt32} (h : img.Overlooks address entry) :
    ¬ img.MissesNoSlot address := by
  obtain ⟨hnone, hsegment, s, hs, t, ht, htable, hcovers, hfilled⟩ := h
  intro hfound
  have hsome := hfound s hs t ht entry htable hcovers hsegment hfilled
  rw [hnone] at hsome
  cases hsome

/-- The record of a section with one pointer: where the section is, in units of 256 bytes, and the
number of the entry of the pointer. -/
def pointerRecord (place number : UInt8) : List UInt8 := [
  0x5F, 0x5F, 0x70, 0, 0, 0, 0, 0, 0, 0, 0, 0, 0, 0, 0, 0,
  0x5F, 0x5F, 0x54, 0, 0, 0, 0, 0, 0, 0, 0, 0, 0, 0, 0, 0,
  0, place, 0, 0, 4, 0, 0, 0, 0, 0, 0, 0, 2, 0, 0, 0, 0, 0, 0, 0, 0, 0, 0, 0,
  7, 0, 0, 0, number, 0, 0, 0, 0, 0, 0, 0]

/-- An image with a symbol that three pointers stand for.  The first is behind another pointer that
stands for no symbol, the second in the part of its segment that an earlier segment covers, and the
third outside of its segment. -/
def hiddenPointers : ByteArray := ⟨(([
  0xCE, 0xFA, 0xED, 0xFE, 12, 0, 0, 0, 9, 0, 0, 0, 2, 0, 0, 0, 4, 0, 0, 0, 0xE8, 1, 0, 0, 0, 0, 0,
  0,
  1, 0, 0, 0, 4, 1, 0, 0, 0x5F, 0x5F, 0x54, 0, 0, 0, 0, 0, 0, 0, 0, 0, 0, 0, 0, 0,
  0, 16, 0, 0, 0, 32, 0, 0, 0, 0, 0, 0, 0, 0, 0, 0, 5, 0, 0, 0, 5, 0, 0, 0, 3, 0, 0, 0,
  0, 0, 0, 0] : List UInt8) ++
  pointerRecord 0x10 0 ++ pointerRecord 0x10 1 ++ pointerRecord 0x30 1 ++ ([
  1, 0, 0, 0, 124, 0, 0, 0, 0x5F, 0x5F, 0x55, 0, 0, 0, 0, 0, 0, 0, 0, 0, 0, 0, 0, 0,
  0, 32, 0, 0, 0, 32, 0, 0, 0, 0, 0, 0, 0, 0, 0, 0, 5, 0, 0, 0, 5, 0, 0, 0, 1, 0, 0, 0,
  0, 0, 0, 0] : List UInt8) ++
  pointerRecord 0x20 1 ++ ([
  2, 0, 0, 0, 24, 0, 0, 0, 4, 2, 0, 0, 1, 0, 0, 0, 16, 2, 0, 0, 4, 0, 0, 0,
  11, 0, 0, 0, 80, 0, 0, 0, 0, 0, 0, 0, 0, 0, 0, 0, 0, 0, 0, 0, 0, 0, 0, 0, 0, 0, 0, 0, 0, 0, 0, 0,
  0, 0, 0, 0, 0, 0, 0, 0, 0, 0, 0, 0, 0, 0, 0, 0, 0, 0, 0, 0, 0, 0, 0, 0, 20, 2, 0, 0, 2, 0, 0, 0,
  0, 0, 0, 0, 0, 0, 0, 0, 0, 0, 0, 0, 0, 0, 0, 0,
  1, 0, 0, 0, 1, 0, 0, 0, 0, 0, 0, 0,
  0, 0x61, 0, 0,
  0, 0, 0, 0x80, 0, 0, 0, 0] : List UInt8)).toArray⟩

/-- A pointer behind another one is missed, and so is one behind another segment or outside of its
own. -/
theorem hiddenPointers_missed :
    ∃ img, parse hiddenPointers = .ok img ∧ ¬ img.MissesNoSlot 0x1000 ∧
      ¬ img.MissesNoSlot 0x2000 ∧ ¬ img.MissesNoSlot 0x3000 := by
  obtain ⟨img, himg, hbehind, hlater, houtside⟩ : ∃ img, parse hiddenPointers = .ok img ∧
      img.Overlooks 0x1000 0 ∧ img.Overlooks 0x2000 0 ∧ img.Overlooks 0x3000 0 := by
    apply exists_of_parse_check
    decide +kernel
  exact ⟨img, himg, hbehind.not_missesNoSlot, hlater.not_missesNoSlot, houtside.not_missesNoSlot⟩

/-- A table of a segment is hidden at an address if an earlier segment covers it, the segment of the
table does not, or an earlier table of the segment does. -/
def Hidden (earlier : List Segment) (s : Segment) (front : List Section) (address : UInt32) :
    Prop :=
  (∃ r ∈ earlier, r.Covers address) ∨ ¬ s.Covers address ∨
    ∃ u ∈ front, u.Covers address ∧ u.IsTable

instance (earlier : List Segment) (s : Segment) (front : List Section) (address : UInt32) :
    Decidable (Hidden earlier s front address) :=
  inferInstanceAs (Decidable (_ ∨ _ ∨ _))

/-- Nothing is hidden: segments have no address in common, tables lie inside their segments, and
tables of one segment have no address in common. -/
structure LaidOut (img : Image) : Prop where
  segments_apart : img.segments.Pairwise fun s r => ∀ address, s.Covers address → ¬ r.Covers address
  tables_inside : ∀ s ∈ img.segments, ∀ t ∈ s.sections, t.IsTable →
    ∀ address, t.Covers address → s.Covers address
  tables_apart : ∀ s ∈ img.segments, s.sections.Pairwise fun u t => u.IsTable → t.IsTable →
    ∀ address, u.Covers address → ¬ t.Covers address

/-- A table that is not hidden is the one that is looked at. -/
theorem resolve?_of_not_hidden (h : parse image options = .ok img) {earlier later : List Segment}
    {s : Segment} {front back : List Section} {t : Section} {entry : UInt32}
    (hsegments : img.segments = earlier ++ s :: later) (hsections : s.sections = front ++ t :: back)
    (htable : t.IsTable) (hcovers : t.Covers address) (hfilled : img.FilledSlot t address entry)
    (hhidden : ¬ Hidden earlier s front address) :
    ∃ symbol, img.symbols[entry.toNat]? = some symbol ∧
      img.resolve? address = some ⟨address, symbol⟩ := by
  unfold Hidden at hhidden
  push Not at hhidden
  obtain ⟨hearlier, hs, hfront⟩ := hhidden
  have hselects : img.Selects address t :=
    ⟨s, ⟨earlier, later, hsegments, hearlier, hs⟩,
      ⟨front, back, hsections, fun u hu hboth => hfront u hu hboth.1 hboth.2, hcovers, htable⟩⟩
  obtain ⟨hsize, hentry, hmarked, hplace⟩ := hfilled
  -- the entry is there, so 32 bits hold its number and the sum does not overflow
  have hlt : t.indirectNumber address < UInt32.size :=
    Nat.lt_trans (Array.getElem?_eq_some_iff.1 hentry).1 (size_indirectSymbols_lt h)
  have hsymbol : img.symbols[entry.toNat]? = some img.symbols[entry.toNat] :=
    Array.getElem?_eq_getElem hplace
  exact ⟨_, hsymbol, resolve?_eq_some_iff.2
    ⟨t, entry, hselects, hlt, ⟨hsize, hentry, hmarked, hplace⟩, rfl, hsymbol⟩⟩

/-- Where segments and tables do not overlap no table is hidden in its range. -/
theorem LaidOut.not_hidden (h : img.LaidOut) {earlier later : List Segment} {s : Segment}
    {front back : List Section} {t : Section}
    (hsegments : img.segments = earlier ++ s :: later) (hsections : s.sections = front ++ t :: back)
    (htable : t.IsTable) (hcovers : t.Covers address) : ¬ Hidden earlier s front address := by
  have hs : s ∈ img.segments := hsegments ▸ List.mem_append_right _ List.mem_cons_self
  have ht : t ∈ s.sections := hsections ▸ List.mem_append_right _ List.mem_cons_self
  have hinside : s.Covers address := h.tables_inside s hs t ht htable address hcovers
  have hsegments' := h.segments_apart
  have hsections' := h.tables_apart s hs
  rw [hsegments, List.pairwise_append] at hsegments'
  rw [hsections, List.pairwise_append] at hsections'
  rintro (⟨r, hr, hearlier⟩ | houtside | ⟨u, hu, hfront, hutable⟩)
  · exact hsegments'.2.2 r hr s List.mem_cons_self address hearlier hinside
  · exact houtside hinside
  · exact hsections'.2.2 u hu t List.mem_cons_self hutable htable address hfront hcovers

/-- A single table inside a single segment hides nothing. -/
theorem LaidOut.of_single {s : Segment} {t : Section} (hsegments : img.segments = [s])
    (hsections : s.sections = [t]) (hinside : ∀ address, t.Covers address → s.Covers address) :
    img.LaidOut := by
  constructor
  · rw [hsegments]
    exact List.pairwise_singleton _ _
  · rw [hsegments, List.forall_mem_singleton, hsections, List.forall_mem_singleton]
    exact fun _ => hinside
  · rw [hsegments, List.forall_mem_singleton, hsections]
    exact List.pairwise_singleton _ _

/-- **A filled slot of a table that is not hidden is found**, with the symbol of its entry.  So no
slot is missed where segments and tables do not overlap and tables lie inside their segments. -/
theorem slots_found (h : parse image options = .ok img) :
    (∀ earlier s later front t back address entry, img.segments = earlier ++ s :: later →
      s.sections = front ++ t :: back → t.IsTable → t.Covers address →
      img.FilledSlot t address entry → ¬ Hidden earlier s front address →
        ∃ symbol, img.symbols[entry.toNat]? = some symbol ∧
          img.resolve? address = some ⟨address, symbol⟩) ∧
    (img.LaidOut → ∀ address, img.MissesNoSlot address) := by
  constructor
  · intro earlier s later front t back address entry hsegments hsections htable hcovers hfilled
      hhidden
    exact resolve?_of_not_hidden h hsegments hsections htable hcovers hfilled hhidden
  · intro hlaid address s hs t ht entry htable hcovers _ hfilled
    obtain ⟨earlier, later, hsegments⟩ := List.append_of_mem hs
    obtain ⟨front, back, hsections⟩ := List.append_of_mem ht
    obtain ⟨symbol, -, hresolve⟩ := resolve?_of_not_hidden h hsegments hsections htable hcovers
      hfilled (hlaid.not_hidden hsegments hsections htable hcovers)
    rw [hresolve]
    rfl

theorem lastStubs_slots_found :
    ∃ img, parse lastStubs = .ok img ∧ img.LaidOut ∧ (∀ address, img.MissesNoSlot address) ∧
      ∃ symbol, img.symbols[0]? = some symbol ∧
        img.resolve? 0xFFFFFFFC = some ⟨0xFFFFFFFC, symbol⟩ := by
  obtain ⟨img, himg, hone, hall⟩ : ∃ img, parse lastStubs = .ok img ∧
      img.segments.length = 1 ∧ ∀ s ∈ img.segments, s.sections.length = 1 ∧
        ∀ t ∈ s.sections, t.IsTable ∧ t.Covers 0xFFFFFFFC ∧ img.FilledSlot t 0xFFFFFFFC 0 ∧
          ¬ Hidden [] s [] 0xFFFFFFFC ∧ s.address.toNat ≤ t.address.toNat ∧
          t.address.toNat + t.size.toNat ≤ s.address.toNat + s.size.toNat := by
    apply exists_of_parse_check
    decide +kernel
  obtain ⟨s, hsegments⟩ := List.length_eq_one_iff.1 hone
  obtain ⟨hsection, htables⟩ := hall s (hsegments ▸ List.mem_singleton_self s)
  obtain ⟨t, hsections⟩ := List.length_eq_one_iff.1 hsection
  obtain ⟨htable, hcovers, hfilled, hhidden, hstart, hend⟩ :=
    htables t (hsections ▸ List.mem_singleton_self t)
  have hlaid : img.LaidOut := LaidOut.of_single hsegments hsections fun address hinside =>
    ⟨hstart.trans hinside.1, hinside.2.trans_le hend⟩
  obtain ⟨hfound, hmissesNone⟩ := slots_found himg
  exact ⟨img, himg, hlaid, hmissesNone hlaid,
    hfound [] s [] [] t [] _ 0 hsegments hsections htable hcovers hfilled hhidden⟩

end Image

end MachImage
