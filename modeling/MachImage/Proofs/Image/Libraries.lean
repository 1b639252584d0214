import MachImage.Proofs.Image.Numbering
import MachImage.Proofs.Image.Symbols
import Mathlib.Data.Nat.Bitwise

/-!
# The libraries of symbols

Under two-level binding the libraries of an image are those that its commands
load, in the order of the commands; the command that names the image itself does
not count.  A symbol says by a number in which of them it is found: the numbers
from 1 to 253 count the libraries from one, and the other three stand for none
(`Image.librariesListed_of_parse`).  The libraries are listed before the symbols
are resolved, so it does not matter where the symbol table stands.
-/

namespace MachImage

variable {options : Options} {image : ByteArray} {img : Image}

/-! ## The header flag and the number of a library -/

/-- Symbols are bound to named libraries if the eighth bit of the header flags is set. -/
theorem Header.isTwoLevel_iff (h : Header) :
    h.isTwoLevel = true ↔ h.flagBits.toNat.testBit 7 = true := by
  have hmask : headerFlags.mask &&& twoLevelFlag = twoLevelFlag := by decide
  have hbit : twoLevelFlag.toNat = 2 ^ 7 := rfl
  unfold isTwoLevel Flags.has Header.flags Flags.ofBits
  rw [decide_eq_true_iff, UInt32.and_assoc, hmask, ← UInt32.toNat_inj, UInt32.toNat_and, hbit,
    Nat.and_two_pow]
  cases h.flagBits.toNat.testBit 7 <;> simp

/-- The number of the library of a symbol: the high byte of its description. -/
def Description.libraryNumber (d : Description) : Nat := d.raw.toNat / 256

/-- A byte is a position among the libraries unless it is one of the three special numbers. -/
theorem LibraryOrdinal.position?_ofByte_eq_some_iff {b : UInt8} {position : UInt32} :
    (ofByte b).position? = some position ↔
      1 ≤ b.toNat ∧ b.toNat ≤ 253 ∧ b.toUInt32 = position := by
  have hlt : b.toNat < 256 := b.toNat_lt
  have hself : b = 0x00 ↔ b.toNat = 0 := UInt8.toNat_inj.symm
  have hdynamic : b = 0xFE ↔ b.toNat = 254 := UInt8.toNat_inj.symm
  have hexecutable : b = 0xFF ↔ b.toNat = 255 := UInt8.toNat_inj.symm
  unfold ofByte
  simp only [hself, hdynamic, hexecutable]
  split_ifs
  -- the three special numbers are no positions and are not between 1 and 253
  iterate 3
    simp only [position?, reduceCtorEq, false_iff]
    omega
  rw [position?, Option.some.injEq]
  exact ⟨fun h => ⟨by omega, by omega, h⟩, fun h => h.2.2⟩

theorem Description.position?_library_eq_some_iff {d : Description} {position : UInt32} :
    d.library.position? = some position ↔
      1 ≤ d.libraryNumber ∧ d.libraryNumber ≤ 253 ∧ position.toNat = d.libraryNumber := by
  have hbyte : ((d.raw >>> 8).toUInt8).toNat = d.libraryNumber := by
    have hlt := d.raw.toNat_lt
    rw [UInt16.toNat_toUInt8, UInt16.toNat_shiftRight, Nat.shiftRight_eq_div_pow]
    show d.raw.toNat / 256 % 256 = d.raw.toNat / 256
    omega
  rw [library, LibraryOrdinal.position?_ofByte_eq_some_iff, hbyte, ← UInt32.toNat_inj,
    UInt8.toNat_toUInt32, hbyte, eq_comm (a := d.libraryNumber)]

namespace Image.Targets

/-- Without two-level binding no entry is looked up in a library. -/
theorem libraryOf_eq_none {t : Targets} (h : t.twoLevel = false) (e : SymbolEntry) :
    t.libraryOf e = none := by
  unfold libraryOf
  rw [h, if_pos (by simp)]

/-- Under two-level binding an entry that is no debugging entry is looked up in the library of its
number. -/
theorem libraryOf_eq_some_iff {t : Targets} (h : t.twoLevel = true) (e : SymbolEntry)
    {name : String} :
    t.libraryOf e = some name ↔
      e.isStab = false ∧ 1 ≤ e.description.libraryNumber ∧ e.description.libraryNumber ≤ 253 ∧
        t.libraries[e.description.libraryNumber - 1]? = some name := by
  unfold libraryOf
  cases hstab : e.isStab with
  | true => simp
  | false =>
    rw [if_neg (by simp [h])]
    cases hposition : e.description.library.position? with
    | none =>
      constructor
      · intro hname
        cases hname
      -- a number between 1 and 253 would be a position
      rintro ⟨-, hlow, hhigh, -⟩
      have hnumber : (UInt32.ofNat e.description.libraryNumber).toNat = e.description.libraryNumber :=
        UInt32.toNat_ofNat_of_lt' (by rw [show UInt32.size = 2 ^ 32 from rfl]; omega)
      rw [Description.position?_library_eq_some_iff.2 ⟨hlow, hhigh, hnumber⟩] at hposition
      cases hposition
    | some position =>
      obtain ⟨hlow, hhigh, heq⟩ := Description.position?_library_eq_some_iff.1 hposition
      have hne : position ≠ 0 := by
        intro hzero
        rw [hzero] at heq
        exact absurd (heq ▸ hlow) (by decide)
      dsimp only
      rw [if_neg hne, heq]
      exact ⟨fun hname => ⟨rfl, hlow, hhigh, hname⟩, fun hall => hall.2.2.2⟩

end Image.Targets

/-! ## The libraries of an image -/

/-- The kinds of command that load a library.  The kind that names the image itself as a library is
not one of them. -/
def CommandId.libraryKinds : List CommandId :=
  [.loadDylib, .loadWeakDylib, .reexportDylib, .lazyLoadDylib, .loadUpwardDylib]

theorem CommandId.loadsLibrary_eq (id : CommandId) : id.loadsLibrary = decide (id ∈ libraryKinds) := by
  cases id <;> rfl

namespace Image

/-- Every command that loads a library names one. -/
theorem exists_dylib_of_parse (h : parse image options = .ok img) {c : Command}
    (hc : c ∈ img.commands) (hloads : c.loadsLibrary = true) : ∃ d, c.dylib? = some d := by
  obtain ⟨-, hbody⟩ := body_of_parse h hc (CommandId.shape?_of_loadsLibrary hloads)
  refine ⟨Command.dylibAt image c.header, ?_⟩
  unfold Command.dylib?
  rw [hbody]
  rfl

/-- If every command that loads a library names one, the libraries are those names. -/
theorem forall₂_loadedLibraries {commands : List Command}
    (h : ∀ c ∈ commands, c.loadsLibrary = true → ∃ d, c.dylib? = some d) :
    List.Forall₂ (fun c name => ∃ d, c.dylib? = some d ∧ d.name = name)
      (commands.filter Command.loadsLibrary) (loadedLibraries commands) := by
  have hloaded : ∀ c ∈ commands.filter Command.loadsLibrary, ∃ d, c.dylib? = some d := by
    intro c hc
    obtain ⟨hmem, hloads⟩ := List.mem_filter.1 hc
    exact h c hmem hloads
  unfold loadedLibraries
  generalize commands.filter Command.loadsLibrary = loads at hloaded
  induction loads with
  | nil => exact .nil
  | cons c cs ih =>
    rw [List.forall_mem_cons] at hloaded
    obtain ⟨⟨d, hd⟩, hrest⟩ := hloaded
    rw [List.filterMap_cons, hd]
    exact .cons ⟨d, hd, rfl⟩ (ih hrest)

theorem libraries_of_parse (h : parse image options = .ok img) :
    img.libraries = librariesOf img.header img.commands := by
  obtain ⟨header, start, segments, libraries, symbols, -, -, -, hlibraries, -, rfl⟩ :=
    parse_eq_ok_iff.1 h
  rw [result_listLibraries] at hlibraries
  exact (Except.ok.inj hlibraries).symm

/-- The libraries of an image and those of its symbols. -/
structure LibrariesListed (img : Image) : Prop where
  /-- The commands stand in the order in which they are stored. -/
  in_file_order : img.commands.Pairwise fun a b =>
    a.header.offset + a.header.length.toNat ≤ b.header.offset
  /-- Without two-level binding there are no libraries. -/
  none_without_flag : img.header.flagBits.toNat.testBit 7 = false →
    img.libraries = [] ∧ ∀ s ∈ img.symbols.toList, s.library = none
  /-- Under two-level binding they are what the commands name that load one, in order. -/
  listed : img.header.flagBits.toNat.testBit 7 = true →
    List.Forall₂ (fun c name => ∃ d, c.dylib? = some d ∧ d.name = name)
      (img.commands.filter fun c => c.id ∈ CommandId.libraryKinds) img.libraries
  /-- A symbol has the library of its number, counted from one, unless it is a debugging entry. -/
  library_iff : img.header.flagBits.toNat.testBit 7 = true → ∀ s ∈ img.symbols.toList, ∀ name,
    s.library = some name ↔
      s.isStab = false ∧ 1 ≤ s.description.libraryNumber ∧ s.description.libraryNumber ≤ 253 ∧
        s.description.libraryNumber ≤ img.libraries.length ∧
        img.libraries[s.description.libraryNumber - 1]? = some name

/-- **Symbols are found in the libraries that the commands load**, counted from one. -/
theorem librariesListed_of_parse (h : parse image options = .ok img) : LibrariesListed img := by
  have htwo := img.header.isTwoLevel_iff
  have hlibraries := libraries_of_parse h
  have hsymbols := symbols_of_parse h
  refine ⟨(commands_of_parse h).2, fun hflag => ?_, fun hflag => ?_, fun hflag s hs name => ?_⟩
  · have hclear : img.header.isTwoLevel = false := by
      rw [← Bool.not_eq_true, htwo, hflag]
      exact Bool.false_ne_true
    refine ⟨by rw [hlibraries, librariesOf, if_neg (by simp [hclear])], fun s hs => ?_⟩
    rw [hsymbols, List.mem_map] at hs
    obtain ⟨e, -, rfl⟩ := hs
    exact Targets.libraryOf_eq_none (t := targetsOf ..) hclear e
  · have hkinds : (fun c : Command => decide (c.id ∈ CommandId.libraryKinds)) =
        Command.loadsLibrary :=
      funext fun c => (CommandId.loadsLibrary_eq c.id).symm
    rw [hlibraries, librariesOf, if_pos (htwo.2 hflag), hkinds]
    exact forall₂_loadedLibraries fun c hc => exists_dylib_of_parse h hc
  · rw [hsymbols, List.mem_map] at hs
    obtain ⟨e, -, rfl⟩ := hs
    refine (Targets.libraryOf_eq_some_iff (t := targetsOf ..) (htwo.2 hflag) e).trans ?_
    refine and_congr_right fun _ => and_congr_right fun hlow => and_congr_right fun _ => ?_
    refine ⟨fun hname => ⟨?_, hname⟩, And.right⟩
    obtain ⟨hlt, -⟩ := List.getElem?_eq_some_iff.1 hname
    exact Nat.le_of_pred_lt hlt

/-- An image with given header flags whose symbol table stands before a command that names the image
itself and two that load the libraries `a` and `b`.  The symbols give the numbers 1, 2 and 3, and a
debugging entry the number 1. -/
def symbolsFirst (flags : UInt8) : ByteArray := ⟨#[
  0xCE, 0xFA, 0xED, 0xFE, 12, 0, 0, 0, 9, 0, 0, 0, 6, 0, 0, 0, 4, 0, 0, 0, 108, 0, 0, 0,
  flags, 0, 0, 0,
  2, 0, 0, 0, 24, 0, 0, 0, 136, 0, 0, 0, 4, 0, 0, 0, 184, 0, 0, 0, 4, 0, 0, 0,
  13, 0, 0, 0, 28, 0, 0, 0, 24, 0, 0, 0, 0, 0, 0, 0, 0, 0, 0, 0, 0, 0, 0, 0, 0x78, 0, 0, 0,
  12, 0, 0, 0, 28, 0, 0, 0, 24, 0, 0, 0, 0, 0, 0, 0, 0, 0, 0, 0, 0, 0, 0, 0, 0x61, 0, 0, 0,
  24, 0, 0, 0x80, 28, 0, 0, 0, 24, 0, 0, 0, 0, 0, 0, 0, 0, 0, 0, 0, 0, 0, 0, 0, 0x62, 0, 0, 0,
  1, 0, 0, 0, 1, 0, 0, 1, 0, 0, 0, 0,
  1, 0, 0, 0, 1, 0, 0, 2, 0, 0, 0, 0,
  1, 0, 0, 0, 1, 0, 0, 3, 0, 0, 0, 0,
  1, 0, 0, 0, 0x64, 0, 0, 1, 0, 0, 0, 0,
  0, 0x73, 0, 0]⟩

theorem symbolsFirst_librariesListed :
    (∃ img, parse (symbolsFirst 0x80) = .ok img ∧ LibrariesListed img ∧
      img.libraries = ["a", "b"] ∧
      img.symbols.toList.map Symbol.library = [some "a", some "b", none, none]) ∧
    ∃ img, parse (symbolsFirst 0) = .ok img ∧ img.libraries = [] ∧
      ∀ s ∈ img.symbols.toList, s.library = none := by
  obtain ⟨img, himg, hlibraries, hsymbols⟩ : ∃ img, parse (symbolsFirst 0x80) = .ok img ∧
      img.libraries = ["a", "b"] ∧
      img.symbols.toList.map Symbol.library = [some "a", some "b", none, none] := by
    apply exists_of_parse_check
    decide +kernel
  obtain ⟨img', himg', hflag⟩ : ∃ img, parse (symbolsFirst 0) = .ok img ∧
      img.header.flagBits.toNat.testBit 7 = false := by
    apply exists_of_parse_check
    decide +kernel
  exact ⟨⟨img, himg, librariesListed_of_parse himg, hlibraries, hsymbols⟩, img', himg',
    (librariesListed_of_parse himg').none_without_flag hflag⟩

end Image

end MachImage
