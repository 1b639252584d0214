import MachImage.Proofs.Image.Numbering
import MachImage.Proofs.Image.Symbols

/-!
# Symbols as they are stored

The symbols of an image are the entries of its first symbol table, one after
another, and there are none without a table (`Image.symbolsStored_of_parse`).  An
entry takes twelve bytes: the place of its name among the names, four fields that
are copied, and nothing else.  The name ends before the first zero byte or where
the names end (`NameEnds`); tables and names may lie anywhere in the file and
overlap.
-/

namespace MachImage

variable {options : Options} {image : ByteArray} {img : Image}

/-! ## Names among others -/

/-- The name that starts at a position ends at the first zero byte from there on, or at the end of
the names if there is none. -/
def NameEnds (image : ByteArray) (start limit finish : Nat) : Prop :=
  start ≤ finish ∧ finish ≤ limit ∧ (∀ i, start ≤ i → i < finish → byteAt image i ≠ 0) ∧
    (finish = limit ∨ byteAt image finish = 0)

/-- Inside the image a window starts with the byte at its position. -/
theorem window_succ {pos n : Nat} (h : pos < image.size) :
    window image pos (n + 1) = byteAt image pos :: window image (pos + 1) n := by
  have hone : window image pos 1 = [byteAt image pos] := by
    have hlength : (window image pos 1).length = 1 := by rw [length_window]; omega
    obtain ⟨b, hb⟩ := List.length_eq_one_iff.1 hlength
    rw [byteAt, hb]
    rfl
  rw [Nat.add_comm n, ← window_append, hone]
  rfl

theorem window_zero (image : ByteArray) (pos : Nat) : window image pos 0 = [] :=
  List.eq_nil_of_length_eq_zero (by rw [length_window, Nat.zero_min])

/-- What comes before the first zero byte of a window is the window up to where the name ends. -/
theorem exists_nameEnds {start n : Nat} (h : start + n ≤ image.size) :
    ∃ finish, NameEnds image start (start + n) finish ∧
      Name.beforeZero (window image start n) = window image start (finish - start) := by
  -- on the length of the window, which loses its first byte
  induction n generalizing start with
  | zero =>
    refine ⟨start, ⟨Nat.le_refl _, Nat.le_refl _, fun i _ _ => by omega, Or.inl rfl⟩, ?_⟩
    rw [Nat.sub_self, window_zero]
    rfl
  | succ n ih =>
    rw [window_succ (by omega)]
    by_cases hzero : byteAt image start = 0
    · refine ⟨start, ⟨Nat.le_refl _, by omega, fun i _ _ => by omega, Or.inr hzero⟩, ?_⟩
      rw [Nat.sub_self, window_zero, Name.beforeZero, List.takeWhile_cons_of_neg (by simp [hzero])]
    · have hrest : start + 1 + n ≤ image.size := by omega
      obtain ⟨finish, ⟨hstart, hlimit, hbefore, hend⟩, hname⟩ := ih hrest
      refine ⟨finish, ⟨by omega, by omega, fun i hi hlt => ?_, ?_⟩, ?_⟩
      · rcases Nat.eq_or_lt_of_le hi with rfl | hnext
        · exact hzero
        · exact hbefore i hnext hlt
      · rwa [show start + (n + 1) = start + 1 + n by omega]
      · rw [show finish - start = finish - (start + 1) + 1 by omega, window_succ (by omega), ← hname,
          Name.beforeZero, List.takeWhile_cons_of_pos (by simp [hzero])]
        rfl

/-- A window of a part of the image is one of the image. -/
theorem window_extract (image : ByteArray) (start : Nat) {n offset len : Nat}
    (h : offset + len ≤ n) :
    window (image.extract start (start + n)) offset len = window image (start + offset) len := by
  rw [window_eq]
  show ((window image start n).drop offset).take len = _
  rw [drop_window, take_window _ _ (by omega)]

/-- The name at an offset of the names, which lie inside the image. -/
theorem SymbolEntry.exists_nameEnds {start n offset : Nat} (h : start + n ≤ image.size)
    (hne : offset ≠ 0) (hle : offset ≤ n) :
    ∃ finish, NameEnds image (start + offset) (start + n) finish ∧
      nameOrNone (image.extract start (start + n)) offset =
        Utf8.decodeLossy (window image (start + offset) (finish - (start + offset))) := by
  have hsize : (image.extract start (start + n)).size = n := by
    rw [ByteArray.size_extract]
    omega
  have hinside : start + offset + (n - offset) ≤ image.size := by omega
  obtain ⟨finish, hends, hname⟩ := MachImage.exists_nameEnds hinside
  -- the names are a part of the image, so a window of them is one of the image
  rw [show start + offset + (n - offset) = start + n by omega] at hends
  refine ⟨finish, hends, ?_⟩
  rw [nameOrNone, if_neg hne, hsize, if_pos hle, nameAt, hsize, bytesUntilZero_eq,
    window_extract image start (by omega), ← hname]
  rfl

theorem SymbolEntry.nameOrNone_eq_empty {names : ByteArray} {offset : Nat}
    (h : offset = 0 ∨ names.size < offset) : nameOrNone names offset = "" := by
  unfold nameOrNone
  rcases h with rfl | hbeyond
  · rfl
  · rw [if_neg (by omega), if_neg (by omega)]

/-! ## Symbols -/

/-- A symbol is stored at a position: its fields are the bytes there, and its name is found among
the names by the word at the position.  The word zero stands for no name, and so does one beyond the
names. -/
structure Symbol.StoredAt (image : ByteArray) (nameStart nameSize pos : Nat) (s : Symbol) :
    Prop where
  type_eq : s.type.raw = byteAt image (pos + 4)
  sectionNumber_eq : s.sectionNumber = byteAt image (pos + 5)
  description_eq : s.description.raw = halfWord image (pos + 6)
  value_eq : s.value = word image (pos + 8)
  name_eq_empty : word image pos = 0 ∨ nameSize < (word image pos).toNat → s.name = ""
  name_eq : word image pos ≠ 0 → (word image pos).toNat ≤ nameSize →
    ∃ finish, NameEnds image (nameStart + (word image pos).toNat) (nameStart + nameSize) finish ∧
      s.name = Utf8.decodeLossy (window image (nameStart + (word image pos).toNat)
        (finish - (nameStart + (word image pos).toNat)))

/-- The symbol of an entry is stored where the entry is, whatever it refers to. -/
theorem SymbolEntry.storedAt_toSymbol {nameStart nameSize : Nat} (pos : Nat)
    (h : nameStart + nameSize ≤ image.size) (definedIn : Option Nat) (library : Option String) :
    ((entryAt image (image.extract nameStart (nameStart + nameSize)) pos).toSymbol definedIn
      library).StoredAt image nameStart nameSize pos := by
  have hzero : word image pos = 0 ↔ (word image pos).toNat = 0 := UInt32.toNat_inj.symm
  unfold entryAt toSymbol
  constructor <;> dsimp only
  case name_eq_empty =>
    intro hnone
    have hsize : (image.extract nameStart (nameStart + nameSize)).size = nameSize := by
      rw [ByteArray.size_extract]
      omega
    rw [hzero] at hnone
    exact nameOrNone_eq_empty (hsize.symm ▸ hnone)
  case name_eq =>
    intro hne hle
    exact exists_nameEnds h (mt hzero.2 hne) hle

/-! ## The table of an image -/

/-- Where the symbol table of a command and its names are. -/
structure SymtabPlace where
  first : Nat
  count : Nat
  nameStart : Nat
  nameSize : Nat

/-- Where the symbol table of the command at a position is, in the words of the command. -/
def symtabPlaceAt (image : ByteArray) (pos : Nat) : SymtabPlace where
  first := (word image (pos + 8)).toNat
  count := (word image (pos + 12)).toNat
  nameStart := (word image (pos + 16)).toNat
  nameSize := (word image (pos + 20)).toNat

theorem entries_symtabAt (image : ByteArray) (pos : Nat) :
    (Command.symtabAt image pos).entries =
      (List.range (symtabPlaceAt image pos).count).map fun k =>
        SymbolEntry.entryAt image
          (image.extract (symtabPlaceAt image pos).nameStart
            ((symtabPlaceAt image pos).nameStart + (symtabPlaceAt image pos).nameSize))
          ((symtabPlaceAt image pos).first + 12 * k) := by
  simp only [Command.symtabAt, symtabPlaceAt]

/-- Symbols are those of a table in the image, one for each entry, in the order of the entries. -/
structure SymtabPlace.Holds (p : SymtabPlace) (image : ByteArray) (symbols : Array Symbol) :
    Prop where
  entries_inside : p.first + 12 * p.count ≤ image.size
  names_inside : p.nameStart + p.nameSize ≤ image.size
  size_eq : symbols.size = p.count
  stored : ∀ k < p.count, ∃ s, symbols[k]? = some s ∧
    s.StoredAt image p.nameStart p.nameSize (p.first + 12 * k)

namespace Image

/-- The commands with a symbol table are those of that kind, and the table is the one that the
command says where to find. -/
theorem symtab?_of_parse (h : parse image options = .ok img) {c : Command} (hc : c ∈ img.commands) :
    c.symtab? =
      if c.id = .symtab then some (Command.symtabAt image c.header.offset) else none := by
  unfold Command.symtab?
  rcases body_cases_of_parse h hc CommandId.ownsShape_symtab with ⟨hid, hbody⟩ | ⟨hid, hshape⟩
  · rw [if_pos hid, hbody]
    rfl
  · rw [if_neg hid]
    split
    next table hcase =>
      rw [hcase] at hshape
      exact absurd rfl hshape
    · rfl

/-- The symbols of an image are those stored in its first symbol table. -/
structure SymbolsStored (image : ByteArray) (img : Image) : Prop where
  /-- The commands stand in the order in which they are stored. -/
  in_file_order : img.commands.Pairwise fun a b =>
    a.header.offset + a.header.length.toNat ≤ b.header.offset
  /-- Without a symbol table there are no symbols. -/
  none_without_table : (∀ c ∈ img.commands, c.id ≠ .symtab) → img.symbols = #[]
  /-- The first symbol table holds the symbols, whatever other ones there are. -/
  of_first_table : ∀ c, First (fun c => c.id = .symtab) img.commands c →
    (symtabPlaceAt image c.header.offset).Holds image img.symbols

theorem symbols_eq_of_first_table (h : parse image options = .ok img) {c : Command}
    (hc : First (fun c => c.id = .symtab) img.commands c) :
    img.symbols.toList = (Command.symtabAt image c.header.offset).entries.map
      (targetsOf options img.header img.places img.libraries).symbolOf := by
  have hfind : img.commands.findSome? Command.symtab? =
      some (Command.symtabAt image c.header.offset) := by
    refine (findSome?_eq_some_iff_first fun b hb => ?_).2 ⟨c, hc, ?_⟩
    · rw [symtab?_of_parse h hb]
      split <;> simp_all
    · rw [symtab?_of_parse h hc.mem, if_pos hc.holds]
  rw [symbols_of_parse h, tableEntries, hfind]

/-- **The symbols of an image are the entries of its first symbol table**, with their names. -/
theorem symbolsStored_of_parse (h : parse image options = .ok img) : SymbolsStored image img where
  in_file_order := (commands_of_parse h).2
  none_without_table hnone := by
    have hfind : img.commands.findSome? Command.symtab? = none := by
      rw [List.findSome?_eq_none_iff]
      intro c hc
      rw [symtab?_of_parse h hc, if_neg (hnone c hc)]
    have hsymbols := symbols_of_parse h
    rw [tableEntries, hfind] at hsymbols
    exact Array.toList_eq_nil_iff.1 hsymbols
  of_first_table c hc := by
    have hshape : c.id.shape? = some .symtab := by rw [hc.holds]; rfl
    obtain ⟨⟨-, hnames, hentries⟩, -⟩ := body_of_parse h hc.mem hshape
    have hsymbols := symbols_eq_of_first_table h hc
    refine ⟨hentries, hnames, ?_, fun k hk => ?_⟩
    · rw [← Array.length_toList, hsymbols, entries_symtabAt, List.length_map, List.length_map,
        List.length_range]
    · refine ⟨(targetsOf options img.header img.places img.libraries).symbolOf _, ?_,
        SymbolEntry.storedAt_toSymbol _ hnames _ _⟩
      rw [← Array.getElem?_toList, hsymbols, entries_symtabAt, List.getElem?_map,
        List.getElem?_map, List.getElem?_range hk]
      rfl

/-- An image with two symbol tables.  The first one has five symbols: without a name, with a name
that ends at a zero byte, with one that ends where the names do, with one that starts there, and with
one beyond. -/
def twoTables : ByteArray := ⟨#[
  0xCE, 0xFA, 0xED, 0xFE, 12, 0, 0, 0, 9, 0, 0, 0, 2, 0, 0, 0, 2, 0, 0, 0, 48, 0, 0, 0, 0, 0, 0, 0,
  2, 0, 0, 0, 24, 0, 0, 0, 76, 0, 0, 0, 5, 0, 0, 0, 136, 0, 0, 0, 5, 0, 0, 0,
  2, 0, 0, 0, 24, 0, 0, 0, 88, 0, 0, 0, 1, 0, 0, 0, 76, 0, 0, 0, 12, 0, 0, 0,
  0, 0, 0, 0, 0x0E, 1, 0, 0, 0, 16, 0, 0,
  1, 0, 0, 0, 1, 0, 0, 1, 0, 0, 0, 0,
  3, 0, 0, 0, 0x0F, 1, 8, 0, 0, 32, 0, 0,
  5, 0, 0, 0, 1, 0, 0, 0, 0, 0, 0, 0,
  6, 0, 0, 0, 0x64, 9, 0, 0, 1, 0, 0, 0,
  0, 0x61, 0, 0xFF, 0x62, 0x63]⟩

theorem twoTables_symbolsStored :
    ∃ img, parse twoTables = .ok img ∧ SymbolsStored twoTables img ∧
      (symtabPlaceAt twoTables 28).Holds twoTables img.symbols ∧
      img.symbols.toList.map Symbol.name = ["", "a", "\uFFFDb", "", ""] := by
  obtain ⟨img, himg, ⟨c, -, hfirst, hoffset⟩, hnames⟩ : ∃ img, parse twoTables = .ok img ∧
      (∃ c ∈ img.commands, img.commands.find? (fun c => c.id = .symtab) = some c ∧
        c.header.offset = 28) ∧
      img.symbols.toList.map Symbol.name = ["", "a", "\uFFFDb", "", ""] := by
    apply exists_of_parse_check
    decide +kernel
  have hstored := symbolsStored_of_parse himg
  have hholds := hstored.of_first_table c
    ((find?_eq_some_iff_first fun _ => decide_eq_true_iff).1 hfirst)
  rw [hoffset] at hholds
  exact ⟨img, himg, hstored, hholds, hnames⟩

end Image

end MachImage
