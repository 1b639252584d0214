import MachImage.Proofs.Checked.Build
import MachImage.Proofs.Image.Addresses
import MachImage.Proofs.Image.Parts

/-!
# Questions without a stop

Looking up a symbol takes it from the table at the place that its name has, which
stops the program if there is no such place.  Finding the symbol at an address
takes differences of addresses and divides by the size of an entry.

In an image that was built, every name has the place of a symbol
(`Image.place_lt_of_parse`); an address is subtracted from only after it has been
compared, and only by an entry that has a size is divided.  So no question about
the image stops the program (`answers_of_parse`), and neither does its building
(`never_stops`).
-/

namespace MachImage

namespace Image

variable {options : Options} {image : ByteArray} {img : Image}

/-- A name leads to a symbol of the table. -/
theorem place_lt_of_parse (h : parse image options = .ok img) {name : String} {place : Nat}
    (hplace : img.names[name]? = some place) : place < img.symbols.size := by
  rcases places_replay h name with ⟨hnone, -⟩ | ⟨place', s, hsome, hs, -⟩
  · rw [hnone] at hplace
    cases hplace
  · rw [hsome] at hplace
    cases hplace
    exact Array.length_toList ▸ (List.getElem?_eq_some_iff.1 hs).1

end Image

namespace Checked

open Image (Resolved)

/-! ## Sections and symbols -/

/-- The section of a number, found through the table of places. -/
def sectionOf (img : Image) (number : Nat) : Option (Option Section) :=
  if number = 0 then some none
  else do
    let place ← difference number 1
    return img.places[place]?.bind (SegmentTable.sectionAt? img.segments)

/-- The symbol at a place of the table. -/
def symbolAt (img : Image) (place : Nat) : Option Symbol := img.symbols[place]?

/-- The symbol that an exposed name stands for. -/
def symbol (img : Image) (name : String) : Option (Option Symbol) :=
  match img.names[name]? with
  | none => some none
  | some place => (symbolAt img place).map some

/-- The exposed names in order, each with its symbol. -/
def namedSymbols (img : Image) : Option (List (String × Symbol)) :=
  img.names.toList.mapM fun (name, place) => (symbolAt img place).map fun s => (name, s)

/-- The segments and the symbols by name. -/
def parts (img : Image) : Option (List Segment × Std.TreeMap String Symbol) := do
  let named ← namedSymbols img
  return (img.segments, Std.TreeMap.ofList named)

/-! ## Addresses -/

/-- Whether an address lies in a range; the difference is taken only above the start. -/
def covers (start size address : UInt32) : Option Bool :=
  if start ≤ address then (difference address.toNat start.toNat).map (· < size.toNat)
  else some false

/-- The section whose table an address lies in. -/
def tableAt (img : Image) (address : UInt32) : Option (Option Section) := do
  match ← img.segments.findM? fun s => covers s.address s.size address with
  | none => return none
  | some segment =>
    segment.sections.findM? fun s =>
      (covers s.address s.size address).map (· && s.stride.isSome)

/-- The place in the indirect symbol table of the entry of a section at an address. -/
def indirectPlace (s : Section) (address : UInt32) : Option (Option Nat) :=
  match s.stride with
  | none => some none
  | some stride =>
    if stride = 0 then some none
    else do
      let distance ← difference address.toNat s.address.toNat
      let entries ← quotient distance stride.toNat
      return sum UInt32.size s.reserved1.toNat entries

/-- The symbol that the stub or pointer at an address stands for. -/
def resolve (img : Image) (address : UInt32) : Option (Option Resolved) := do
  match ← tableAt img address with
  | none => return none
  | some table =>
    match ← indirectPlace table address with
    | none => return none
    | some place =>
      return do
        let entry ← img.indirectSymbols[place]?
        let symbol ← img.symbolOfEntry? entry
        return { address, symbol }

theorem covers_eq_some (start size address : UInt32) :
    covers start size address = some (inRange start size address) := by
  unfold covers inRange
  by_cases hstart : start ≤ address
  · have hdistance : address.toNat - start.toNat = (address - start).toNat :=
      (UInt32.toNat_sub_of_le _ _ hstart).symm
    rw [if_pos hstart, difference_eq_some (UInt32.le_iff_toNat_le.1 hstart), hdistance]
    simp [hstart, UInt32.lt_iff_toNat_lt]
  · simp [hstart]

/-- A search whose test does not stop does not stop. -/
theorem findM?_eq_some {α : Type} {p : α → Option Bool} {q : α → Bool}
    (h : ∀ a, p a = some (q a)) (as : List α) : as.findM? p = some (as.find? q) := by
  have hp : p = fun a => pure (q a) := funext h
  rw [hp, List.findM?_pure]
  rfl

theorem tableAt_eq_some (img : Image) (address : UInt32) :
    tableAt img address = some (img.tableAt? address) := by
  have hsegment := findM?_eq_some (fun s : Segment => covers_eq_some s.address s.size address)
  have htable := findM?_eq_some (p := fun s : Section =>
      (covers s.address s.size address).map (· && s.stride.isSome))
    fun s => congrArg (Option.map _) (covers_eq_some s.address s.size address)
  rw [tableAt, hsegment, Image.tableAt?]
  simp only [Option.bind_eq_bind, Option.bind_some, Segment.contains]
  cases img.segments.find? fun s => inRange s.address s.size address with
  | none => rfl
  | some segment => exact htable segment.sections

/-- The section found covers the address, so that the address is not below its start. -/
theorem address_le_of_tableAt? {img : Image} {address : UInt32} {table : Section}
    (h : img.tableAt? address = some table) : table.address ≤ address := by
  obtain ⟨hcovers, -⟩ := (Image.tableAt?_eq_some_iff.1 h).holds
  exact UInt32.le_iff_toNat_le.2 hcovers.1

/-- Only an entry that has a size is divided by. -/
theorem indirectPlace_eq_some {s : Section} {address : UInt32} (h : s.address ≤ address) :
    indirectPlace s address = some (Image.indirectPlace? s address) := by
  unfold indirectPlace Image.indirectPlace?
  cases s.stride with
  | none => rfl
  | some stride =>
    by_cases hzero : stride = 0
    · simp only [Option.bind_some, if_pos hzero]
    · have hstride : stride.toNat ≠ 0 := fun h0 => hzero (UInt32.toNat_inj.1 h0)
      have hentries : (address.toNat - s.address.toNat) / stride.toNat =
          ((address - s.address) / stride).toNat := by
        rw [UInt32.toNat_div, UInt32.toNat_sub_of_le _ _ h]
      simp only [Option.bind_some, if_neg hzero]
      rw [difference_eq_some (UInt32.le_iff_toNat_le.1 h)]
      simp only [Option.bind_eq_bind, Option.bind_some, quotient_eq_some hstride, hentries]
      rfl

/-- **The symbol at an address is found without a stop**, whatever the address. -/
theorem resolve_eq_some (img : Image) (address : UInt32) :
    resolve img address = some (img.resolve? address) := by
  rw [resolve, tableAt_eq_some, Image.resolve?]
  cases htable : img.tableAt? address with
  | none => rfl
  | some table =>
    simp only [Option.bind_eq_bind, Option.bind_some]
    rw [indirectPlace_eq_some (address_le_of_tableAt? htable)]
    cases Image.indirectPlace? table address <;> rfl

/-! ## Images that were built -/

/-- A walk over a list stops only at one of its members. -/
theorem mapM_eq_some {α β : Type} {f : α → Option β} {as : List α}
    (h : ∀ a ∈ as, ∃ b, f a = some b) : as.mapM f = some (as.filterMap f) := by
  induction as with
  | nil => rfl
  | cons a as ih =>
    rw [List.forall_mem_cons] at h
    obtain ⟨⟨b, hb⟩, hrest⟩ := h
    rw [List.mapM_cons, hb, ih hrest, List.filterMap_cons_some hb]
    rfl

section Built

variable {options : Options} {image : ByteArray} {img : Image}
  (h : Image.parse image options = .ok img)

include h

theorem symbolAt_eq_some {name : String} {place : Nat} (hplace : img.names[name]? = some place) :
    ∃ s, symbolAt img place = some s :=
  ⟨_, Array.getElem?_eq_getElem (Image.place_lt_of_parse h hplace)⟩

theorem symbol_eq_some (name : String) : symbol img name = some (img.symbol? name) := by
  rw [symbol, Image.symbol?]
  cases hplace : img.names[name]? with
  | none => rfl
  | some place =>
    obtain ⟨s, hs⟩ := symbolAt_eq_some h hplace
    show (symbolAt img place).map some = some (symbolAt img place)
    rw [hs]
    rfl

theorem namedSymbols_eq_some : namedSymbols img = some img.namedSymbols := by
  refine mapM_eq_some fun p hp => ?_
  obtain ⟨name, place⟩ := p
  obtain ⟨s, hs⟩ := symbolAt_eq_some h (Std.TreeMap.mem_toList_iff_getElem?_eq_some.1 hp)
  exact ⟨(name, s), congrArg (Option.map _) hs⟩

theorem parts_eq_some : parts img = some img.parts := by
  rw [parts, namedSymbols_eq_some h, Image.parts_eq h]
  rfl

omit h in
theorem sectionOf_eq_some (number : Nat) :
    sectionOf img number = some (img.section? number) := by
  cases number with
  | zero => rfl
  | succ place =>
    rw [sectionOf, if_neg (Nat.succ_ne_zero place), difference_eq_some (Nat.le_add_left 1 place)]
    rfl

end Built

/-- Every question about an image is answered without a stop, whatever is asked for. -/
structure Answers (img : Image) : Prop where
  /-- Every name has the place of a symbol of the table. -/
  place_lt : ∀ {name : String} {place : Nat}, img.names[name]? = some place →
    place < img.symbols.size
  symbol_eq : ∀ name, symbol img name = some (img.symbol? name)
  namedSymbols_eq : namedSymbols img = some img.namedSymbols
  parts_eq : parts img = some img.parts
  sectionOf_eq : ∀ number, sectionOf img number = some (img.section? number)
  resolve_eq : ∀ address, resolve img address = some (img.resolve? address)

/-- **Nothing stops the program.**  A file of less than `68 * 2 ^ 32` bytes, whatever it holds, is
built or refused without a stop, and then every question about the image is answered.  The program
whose operations can stop has the report and the answers of the one whose operations cannot.  A
number that is read by itself, from any cursor inside the file, has all its bytes as well. -/
theorem never_stops (options : Options) {image : ByteArray}
    (hsize : image.size < 68 * UInt32.size) :
    build options image = some (Image.build options image) ∧
      (∀ img, Image.parse image options = .ok img → Answers img) ∧
      ∀ pos ≤ image.size, CheckedReader.u16.Follows Reader.u16 image pos ∧
        CheckedReader.u32.Follows Reader.u32 image pos := by
  refine ⟨build_eq_some hsize, fun img h => ?_, fun pos hpos =>
    ⟨CheckedReader.follows_u16 hsize hpos, CheckedReader.follows_u32 hsize hpos⟩⟩
  exact {
    place_lt := Image.place_lt_of_parse h
    symbol_eq := symbol_eq_some h
    namedSymbols_eq := namedSymbols_eq_some h
    parts_eq := parts_eq_some h
    sectionOf_eq := sectionOf_eq_some
    resolve_eq := resolve_eq_some img }

/-- An image with a section of two stubs of four bytes, the second of which stands for its only
symbol. -/
def twoStubs : ByteArray := ⟨#[
  0xCE, 0xFA, 0xED, 0xFE, 12, 0, 0, 0, 9, 0, 0, 0, 2, 0, 0, 0, 3, 0, 0, 0, 228, 0, 0, 0, 0, 0, 0, 0,
  1, 0, 0, 0, 124, 0, 0, 0, 0x5F, 0x5F, 0x54, 0, 0, 0, 0, 0, 0, 0, 0, 0, 0, 0, 0, 0,
  0, 32, 0, 0, 0, 16, 0, 0, 0, 0, 0, 0, 0, 0, 0, 0, 5, 0, 0, 0, 5, 0, 0, 0, 1, 0, 0, 0, 0, 0, 0, 0,
  0x5F, 0x5F, 0x73, 0, 0, 0, 0, 0, 0, 0, 0, 0, 0, 0, 0, 0,
  0x5F, 0x5F, 0x54, 0, 0, 0, 0, 0, 0, 0, 0, 0, 0, 0, 0, 0,
  0, 32, 0, 0, 8, 0, 0, 0, 0, 0, 0, 0, 2, 0, 0, 0, 0, 0, 0, 0, 0, 0, 0, 0, 8, 0, 0, 0x80,
  0, 0, 0, 0, 4, 0, 0, 0,
  2, 0, 0, 0, 24, 0, 0, 0, 0, 1, 0, 0, 1, 0, 0, 0, 12, 1, 0, 0, 3, 0, 0, 0,
  11, 0, 0, 0, 80, 0, 0, 0, 0, 0, 0, 0, 0, 0, 0, 0, 0, 0, 0, 0, 0, 0, 0, 0, 0, 0, 0, 0, 0, 0, 0, 0,
  0, 0, 0, 0, 0, 0, 0, 0, 0, 0, 0, 0, 0, 0, 0, 0, 0, 0, 0, 0, 0, 0, 0, 0, 16, 1, 0, 0, 2, 0, 0, 0,
  0, 0, 0, 0, 0, 0, 0, 0, 0, 0, 0, 0, 0, 0, 0, 0,
  1, 0, 0, 0, 1, 0, 0, 0, 0, 0, 0, 0,
  0, 0x61, 0, 0,
  0, 0, 0, 0x80, 0, 0, 0, 0]⟩

theorem twoStubs_never_stops :
    twoStubs.size < 68 * UInt32.size ∧
      build {} twoStubs = some (Image.build {} twoStubs) ∧
      ∃ img, Image.parse twoStubs = .ok img ∧ Answers img ∧
        (resolve img 0x2004).map (fun found => found.map fun r => r.symbol.name) =
          some (some "a") ∧
        resolve img 0x2000 = some none := by
  obtain ⟨img, himg, hfound, hlocal⟩ : ∃ img, Image.parse twoStubs = .ok img ∧
      (img.resolve? 0x2004).map (fun r => r.symbol.name) = some "a" ∧
      img.resolve? 0x2000 = none := by
    apply Image.exists_of_parse_check
    decide +kernel
  have hsize : twoStubs.size < 68 * UInt32.size := by decide +kernel
  obtain ⟨hbuild, hanswers, -⟩ := never_stops {} hsize
  have hresolve := (hanswers img himg).resolve_eq
  refine ⟨hsize, hbuild, img, himg, hanswers img himg, ?_, ?_⟩
  · rw [hresolve, Option.map_some, hfound]
  · rw [hresolve, hlocal]

end Checked

end MachImage
