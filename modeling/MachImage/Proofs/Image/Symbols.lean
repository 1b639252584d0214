import MachImage.Proofs.Command.Bindings
import MachImage.Proofs.Image.Contents

/-!
# Symbols and their sections

A symbol refers to its section by number, and the number can be that of no
section.  The symbols of a table are the same whether sections are strict or not
(`Targets.symbolOf`); strictness only refuses an image for the first symbol in a
section that does not exist (`Image.parse_strict_eq`).  `Image.parse_strict` says
when that is so, and that the section a symbol of an image is defined in is
there and has the number that the symbol gives.
-/

namespace MachImage

variable {options : Options} {image : ByteArray}

/-! ## Symbols in sections that do not exist -/

namespace Symbol

/-- A symbol is misplaced if it is in a section beyond the last.  Debugging entries are in no
section. -/
def Misplaced (sectionCount : Nat) (s : Symbol) : Prop :=
  s.isStab = false ∧ sectionCount < s.sectionNumber.toNat

instance (sectionCount : Nat) (s : Symbol) : Decidable (s.Misplaced sectionCount) :=
  inferInstanceAs (Decidable (_ ∧ _))

/-- The failure that a misplaced symbol is. -/
def misplacement (sectionCount : Nat) (s : Symbol) : Error :=
  .sectionOutOfRange s.name s.sectionNumber sectionCount

/-- The first misplaced symbol is a failure. -/
def refuseMisplaced (sectionCount : Nat) (symbols : List Symbol) : Except Error (List Symbol) :=
  match symbols.find? (fun s => s.Misplaced sectionCount) with
  | some s => .error (s.misplacement sectionCount)
  | none => .ok symbols

theorem refuseMisplaced_cons_of_misplaced {sectionCount : Nat} {s : Symbol}
    (h : s.Misplaced sectionCount) (symbols : List Symbol) :
    refuseMisplaced sectionCount (s :: symbols) = .error (s.misplacement sectionCount) := by
  unfold refuseMisplaced
  rw [List.find?_cons_of_pos (by simpa using h)]

theorem refuseMisplaced_cons_of_placed {sectionCount : Nat} {s : Symbol}
    (h : ¬ s.Misplaced sectionCount) (symbols : List Symbol) :
    refuseMisplaced sectionCount (s :: symbols) =
      (refuseMisplaced sectionCount symbols).map (s :: ·) := by
  unfold refuseMisplaced
  rw [List.find?_cons_of_neg (by simpa using h)]
  cases symbols.find? (fun s => s.Misplaced sectionCount) <;> rfl

theorem eq_of_refuseMisplaced {sectionCount : Nat} {symbols accepted : List Symbol}
    (h : refuseMisplaced sectionCount symbols = .ok accepted) : accepted = symbols := by
  unfold refuseMisplaced at h
  cases hfind : symbols.find? (fun s => s.Misplaced sectionCount) with
  | some s =>
    rw [hfind] at h
    cases h
  | none =>
    rw [hfind] at h
    exact (Except.ok.inj h).symm

end Symbol

theorem SymbolEntry.section?_eq_some_iff {e : SymbolEntry} {number : UInt8} :
    e.section? = some number ↔ e.isStab = false ∧ e.sectionNumber ≠ 0 ∧ e.sectionNumber = number := by
  unfold section?
  simp [and_assoc]

/-! ## Resolving entries -/

namespace Image.Targets

variable (t : Targets)

/-- The section of an entry, if there is one of its number. -/
def sectionOf (e : SymbolEntry) : Option Nat :=
  e.section?.bind fun number =>
    if number.toNat ≤ t.sectionCount then some number.toNat else none

/-- The symbol of an entry where sections that do not exist are ignored. -/
def symbolOf (e : SymbolEntry) : Symbol := e.toSymbol (t.sectionOf e) (t.libraryOf e)

/-- A symbol is defined in the section of its number if there is one, unless it is a debugging
entry. -/
theorem definedIn_symbolOf_eq_some_iff (e : SymbolEntry) (i : Nat) :
    (t.symbolOf e).definedIn = some i ↔
      (t.symbolOf e).isStab = false ∧ (t.symbolOf e).sectionNumber.toNat = i ∧ i ≠ 0 ∧
        i ≤ t.sectionCount := by
  show t.sectionOf e = some i ↔ e.isStab = false ∧ e.sectionNumber.toNat = i ∧ _
  have hzero : e.sectionNumber ≠ 0 ↔ e.sectionNumber.toNat ≠ 0 := by
    rw [Ne, ← UInt8.toNat_inj]
    rfl
  simp only [sectionOf, Option.bind_eq_some_iff, SymbolEntry.section?_eq_some_iff,
    Option.ite_none_right_eq_some, Option.some.injEq]
  constructor
  · rintro ⟨_, ⟨hstab, hne, rfl⟩, hle, rfl⟩
    exact ⟨hstab, rfl, hzero.1 hne, hle⟩
  · rintro ⟨hstab, rfl, hne, hle⟩
    exact ⟨_, ⟨hstab, hzero.2 hne, rfl⟩, hle, rfl⟩

/-- The place of an entry, unless sections are strict and it is in one that does not exist. -/
theorem placeIn_eq (e : SymbolEntry) :
    t.placeIn e =
      if t.strictSections = true ∧ e.isStab = false ∧ t.sectionCount < e.sectionNumber.toNat then
        .error (.sectionOutOfRange e.name e.sectionNumber t.sectionCount)
      else .ok (t.sectionOf e) := by
  unfold placeIn sectionOf
  cases hsection : e.section? with
  | none =>
    -- an entry without a section is a debugging entry or has the number zero
    have hplaced : ¬ (e.isStab = false ∧ t.sectionCount < e.sectionNumber.toNat) := by
      rintro ⟨hstab, hbeyond⟩
      have hzero : e.sectionNumber ≠ 0 := by
        intro hzero
        rw [hzero] at hbeyond
        exact absurd hbeyond (Nat.not_lt_zero _)
      rw [SymbolEntry.section?_eq_some_iff.2 ⟨hstab, hzero, rfl⟩] at hsection
      cases hsection
    rw [if_neg fun h => hplaced h.2]
    rfl
  | some number =>
    obtain ⟨hstab, -, rfl⟩ := SymbolEntry.section?_eq_some_iff.1 hsection
    dsimp only [Option.bind_some]
    by_cases hle : e.sectionNumber.toNat ≤ t.sectionCount
    · rw [if_pos hle, if_pos hle, if_neg fun h => absurd h.2.2 (Nat.not_lt.2 hle)]
    · rw [if_neg hle, if_neg hle]
      by_cases hstrict : t.strictSections = true
      · rw [if_pos hstrict, if_pos ⟨hstrict, hstab, Nat.lt_of_not_le hle⟩]
      · rw [if_neg hstrict, if_neg fun h => hstrict h.1]

theorem resolve_of_misplaced (hstrict : t.strictSections = true) {e : SymbolEntry}
    (h : (t.symbolOf e).Misplaced t.sectionCount) :
    t.resolve e = .error ((t.symbolOf e).misplacement t.sectionCount) := by
  unfold resolve
  rw [placeIn_eq, if_pos ⟨hstrict, h⟩]
  rfl

/-- An entry is resolved to its symbol, unless sections are strict and the symbol is misplaced. -/
theorem resolve_of_placed {e : SymbolEntry}
    (h : t.strictSections = true → ¬ (t.symbolOf e).Misplaced t.sectionCount) :
    t.resolve e = .ok (t.symbolOf e) := by
  unfold resolve
  rw [placeIn_eq, if_neg fun hboth => h hboth.1 hboth.2]
  rfl

variable {t}

theorem mapM_resolve_of_lenient (hlenient : t.strictSections = false) (es : List SymbolEntry) :
    es.mapM t.resolve = .ok (es.map t.symbolOf) := by
  induction es with
  | nil => rfl
  | cons e es ih =>
    have hresolve : t.resolve e = .ok (t.symbolOf e) := by
      refine t.resolve_of_placed fun hstrict => ?_
      rw [hlenient] at hstrict
      cases hstrict
    rw [List.mapM_cons, hresolve, ih]
    rfl

/-- Under strict sections a table of entries is refused for the first misplaced symbol. -/
theorem mapM_resolve_of_strict (hstrict : t.strictSections = true) (es : List SymbolEntry) :
    es.mapM t.resolve = Symbol.refuseMisplaced t.sectionCount (es.map t.symbolOf) := by
  induction es with
  | nil => rfl
  | cons e es ih =>
    rw [List.mapM_cons, List.map_cons]
    by_cases hmisplaced : (t.symbolOf e).Misplaced t.sectionCount
    · rw [t.resolve_of_misplaced hstrict hmisplaced, Symbol.refuseMisplaced_cons_of_misplaced hmisplaced]
      rfl
    · rw [t.resolve_of_placed fun _ => hmisplaced, ih, Symbol.refuseMisplaced_cons_of_placed hmisplaced]
      cases Symbol.refuseMisplaced t.sectionCount (es.map t.symbolOf) <;> rfl

end Image.Targets

/-! ## Images -/

namespace Image

/-- The entries of the first symbol table among the commands. -/
def tableEntries (commands : List Command) : List SymbolEntry :=
  match commands.findSome? Command.symtab? with
  | some table => table.entries
  | none => []

theorem result_buildSymbols (t : Targets) (commands : List Command) :
    (buildSymbols t commands).result = (tableEntries commands).mapM t.resolve := by
  unfold buildSymbols tableEntries
  cases commands.findSome? Command.symtab? with
  | none => rfl
  | some table =>
    show (resolveEntries t table.entries).result = table.entries.mapM t.resolve
    unfold resolveEntries
    cases table.entries.mapM t.resolve <;> rfl

/-- The symbols of a table are those of its entries, strict or not. -/
theorem symbols_eq_of_buildSymbols {t : Targets} {commands : List Command} {symbols : List Symbol}
    (h : (buildSymbols t commands).result = .ok symbols) :
    symbols = (tableEntries commands).map t.symbolOf := by
  rw [result_buildSymbols] at h
  cases hstrict : t.strictSections with
  | false =>
    rw [Targets.mapM_resolve_of_lenient hstrict] at h
    exact (Except.ok.inj h).symm
  | true =>
    rw [Targets.mapM_resolve_of_strict hstrict] at h
    exact Symbol.eq_of_refuseMisplaced h

/-- An image is refused for the first misplaced symbol. -/
def requireSections (img : Image) : Except Error Image :=
  (Symbol.refuseMisplaced img.places.length img.symbols.toList).map fun _ => img

theorem buildSegments_congr {options' : Options} (hdata : options.segmentData = options'.segmentData)
    (image : ByteArray) (commands : List Command) :
    buildSegments options image commands = buildSegments options' image commands := by
  unfold buildSegments
  rw [SegmentTable.build_congr hdata]

theorem readCommands_congr {options' : Options} (hinfo : options.bindInfo = options'.bindInfo)
    (image : ByteArray) (count start : Nat) :
    readCommands options image count start = readCommands options' image count start := by
  unfold readCommands
  rw [Walk.run_congr hinfo]

theorem requireSections_ofStages (header : Header) (walk : Walk) (table : SegmentTable)
    (libraries : List String) (symbols : List Symbol) :
    requireSections (ofStages header walk table libraries symbols) =
      (Symbol.refuseMisplaced table.places.length symbols).map
        (ofStages header walk table libraries) := by
  show (Symbol.refuseMisplaced table.places.length symbols).map _ = _
  cases h : Symbol.refuseMisplaced table.places.length symbols with
  | error e => rfl
  | ok accepted =>
    rw [Symbol.eq_of_refuseMisplaced h]
    rfl

theorem ofWalk_strict (options : Options) (image : ByteArray) (header : Header) (walk : Walk) :
    ofWalk { options with strictSections := true } image header walk =
      ofWalk { options with strictSections := false } image header walk >>= requireSections := by
  have hsegments : buildSegments { options with strictSections := true } image walk.commands =
      buildSegments { options with strictSections := false } image walk.commands :=
    buildSegments_congr (by rfl) image walk.commands
  unfold ofWalk
  rw [bind_assoc, hsegments]
  refine bind_congr fun table => ?_
  dsimp only
  rw [result_buildSymbols, result_buildSymbols, Targets.mapM_resolve_of_strict rfl,
    Targets.mapM_resolve_of_lenient rfl]
  exact (requireSections_ofStages header walk table _ _).symm

/-- **Strictness refuses an image for its first misplaced symbol**, and does nothing else. -/
theorem parse_strict_eq (options : Options) (image : ByteArray) :
    parse image { options with strictSections := true } =
      parse image { options with strictSections := false } >>= requireSections := by
  rw [parse_eq, parse_eq, bind_assoc]
  refine bind_congr fun p => ?_
  have hcommands : readCommands { options with strictSections := true } image
        p.1.commandCount.toNat p.2 =
      readCommands { options with strictSections := false } image p.1.commandCount.toNat p.2 :=
    readCommands_congr (by rfl) image _ _
  show (readCommands _ image p.1.commandCount.toNat p.2).result >>= _ =
    ((readCommands _ image p.1.commandCount.toNat p.2).result >>= _) >>= _
  rw [hcommands, bind_assoc]
  exact bind_congr fun walk => ofWalk_strict options image p.1 walk

/-- The symbols of an image are those of the entries of its table, resolved against its sections and
its libraries. -/
theorem symbols_of_parse {img : Image} (h : parse image options = .ok img) :
    img.symbols.toList = (tableEntries img.commands).map
      (targetsOf options img.header img.places img.libraries).symbolOf := by
  obtain ⟨header, start, table, libraries, symbols, -, -, -, -, hsymbols, rfl⟩ :=
    parse_eq_ok_iff.1 h
  exact symbols_eq_of_buildSymbols hsymbols

/-- The symbols of an image are those of the entries of its table. -/
theorem exists_targets_of_parse {img : Image} (h : parse image options = .ok img) :
    ∃ t : Targets, t.sectionCount = img.sections.length ∧
      img.symbols.toList = (tableEntries img.commands).map t.symbolOf :=
  ⟨_, length_places h, symbols_of_parse h⟩

theorem requireSections_of_placed {img : Image}
    (h : ∀ s ∈ img.symbols.toList, ¬ s.Misplaced img.places.length) :
    requireSections img = .ok img := by
  have hfind : img.symbols.toList.find? (fun s => s.Misplaced img.places.length) = none := by
    simpa using h
  unfold requireSections Symbol.refuseMisplaced
  rw [hfind]
  rfl

theorem requireSections_of_misplaced {img : Image}
    (h : ∃ s ∈ img.symbols.toList, s.Misplaced img.places.length) :
    ∃ before s after, img.symbols.toList = before ++ s :: after ∧
      (∀ r ∈ before, ¬ r.Misplaced img.places.length) ∧ s.Misplaced img.places.length ∧
      requireSections img =
        .error (.sectionOutOfRange s.name s.sectionNumber img.places.length) := by
  obtain ⟨s, ⟨before, after, hsplit, hbefore, hs⟩, hfind⟩ := exists_first h
  refine ⟨before, s, after, hsplit, hbefore, hs, ?_⟩
  unfold requireSections Symbol.refuseMisplaced
  rw [hfind]
  rfl

/-- **Strict sections refuse exactly the images with a symbol in a section that does not exist**,
and name the first one.  Every other image, and every other failure, is the same.  In every image a
symbol that is no debugging entry is defined in the section of its number if there is one, and this
section is found under the number. -/
theorem parse_strict (options : Options) (image : ByteArray) :
    (∀ e, parse image { options with strictSections := false } = .error e →
      parse image { options with strictSections := true } = .error e) ∧
    (∀ img, parse image { options with strictSections := false } = .ok img →
      ((∀ s ∈ img.symbols.toList, ¬ s.Misplaced img.sections.length) →
        parse image { options with strictSections := true } = .ok img) ∧
      ((∃ s ∈ img.symbols.toList, s.Misplaced img.sections.length) →
        ∃ before s after, img.symbols.toList = before ++ s :: after ∧
          (∀ r ∈ before, ¬ r.Misplaced img.sections.length) ∧ s.Misplaced img.sections.length ∧
          parse image { options with strictSections := true } =
            .error (.sectionOutOfRange s.name s.sectionNumber img.sections.length))) ∧
    ∀ img, parse image options = .ok img → ∀ s ∈ img.symbols.toList, ∀ i,
      (s.definedIn = some i ↔ s.isStab = false ∧ s.sectionNumber.toNat = i ∧ i ≠ 0 ∧
        i ≤ img.sections.length) ∧
      (s.definedIn = some i → ∃ t, img.section? i = some t ∧ img.sections[i - 1]? = some t ∧
        t.number = i) := by
  rw [parse_strict_eq]
  refine ⟨fun e he => ?_, fun img himg => ?_, fun img himg s hs i => ?_⟩
  · rw [he]
    rfl
  · rw [himg, ← length_places himg]
    exact ⟨requireSections_of_placed, requireSections_of_misplaced⟩
  · obtain ⟨t, hcount, hsymbols⟩ := exists_targets_of_parse himg
    rw [hsymbols, List.mem_map] at hs
    obtain ⟨e, -, rfl⟩ := hs
    have hdefined := t.definedIn_symbolOf_eq_some_iff e i
    rw [hcount] at hdefined
    refine ⟨hdefined, fun hsome => ?_⟩
    obtain ⟨-, -, hne, hle⟩ := hdefined.1 hsome
    have hlt : i - 1 < img.sections.length := by omega
    have hplace : img.sections[i - 1]? = some img.sections[i - 1] := List.getElem?_eq_getElem hlt
    have hsection : img.section? i = some img.sections[i - 1] := by
      rw [section?_eq_getElem? himg hne, hplace]
    have hnumber := List.find?_some ((section?_eq_find? himg i).symm.trans hsection)
    exact ⟨_, hsection, hplace, of_decide_eq_true hnumber⟩

/-- An image with one section and three symbols: one in the section, a debugging entry that has a
greater number, and one with a given number. -/
def threeSymbols (sectionNumber : UInt8) : ByteArray := ⟨#[
  0xCE, 0xFA, 0xED, 0xFE, 12, 0, 0, 0, 9, 0, 0, 0, 2, 0, 0, 0, 2, 0, 0, 0, 148, 0, 0, 0, 0, 0, 0, 0,
  1, 0, 0, 0, 124, 0, 0, 0, 0x5F, 0x5F, 0x54, 0, 0, 0, 0, 0, 0, 0, 0, 0, 0, 0, 0, 0,
  0, 16, 0, 0, 0, 16, 0, 0, 0, 0, 0, 0, 0, 0, 0, 0, 5, 0, 0, 0, 5, 0, 0, 0, 1, 0, 0, 0, 0, 0, 0, 0,
  0x5F, 0x5F, 0x74, 0, 0, 0, 0, 0, 0, 0, 0, 0, 0, 0, 0, 0,
  0x5F, 0x5F, 0x54, 0, 0, 0, 0, 0, 0, 0, 0, 0, 0, 0, 0, 0,
  0, 16, 0, 0, 4, 0, 0, 0, 0, 0, 0, 0, 2, 0, 0, 0, 0, 0, 0, 0, 0, 0, 0, 0, 0, 4, 0, 0x80,
  0, 0, 0, 0, 0, 0, 0, 0,
  2, 0, 0, 0, 24, 0, 0, 0, 176, 0, 0, 0, 3, 0, 0, 0, 212, 0, 0, 0, 5, 0, 0, 0,
  1, 0, 0, 0, 0x0F, 1, 0, 0, 0, 16, 0, 0,
  0, 0, 0, 0, 0x64, 9, 0, 0, 0, 0, 0, 0,
  3, 0, 0, 0, 0x0F, sectionNumber, 0, 0, 4, 16, 0, 0,
  0, 0x61, 0, 0x62, 0]⟩

theorem threeSymbols_strict :
    parse ByteArray.empty { strictSections := true } = .error (.tooShortForMagic 0) ∧
    (∃ img, parse (threeSymbols 1) { strictSections := true } = .ok img ∧
      ∃ s ∈ img.symbols.toList, s.definedIn = some 1 ∧ ∃ t, img.section? 1 = some t) ∧
    parse (threeSymbols 2) { strictSections := true } = .error (.sectionOutOfRange "b" 2 1) := by
  obtain ⟨img, himg, hplaced, s, hs, hdefined⟩ :
      ∃ img, parse (threeSymbols 1) { strictSections := false } = .ok img ∧
        (∀ s ∈ img.symbols.toList, ¬ s.Misplaced img.sections.length) ∧
        ∃ s ∈ img.symbols.toList, s.definedIn = some 1 := by
    apply exists_of_parse_check
    decide +kernel
  obtain ⟨img', himg', hcount, hmisplaced, honly⟩ :
      ∃ img, parse (threeSymbols 2) { strictSections := false } = .ok img ∧
        img.sections.length = 1 ∧
        (∃ s ∈ img.symbols.toList, s.Misplaced img.sections.length) ∧
        ∀ s ∈ img.symbols.toList, s.Misplaced img.sections.length →
          s.name = "b" ∧ s.sectionNumber = 2 := by
    apply exists_of_parse_check
    decide +kernel
  have hstrict := (parse_strict {} (threeSymbols 1)).2.1 img himg
  have hsection := (parse_strict { strictSections := false } (threeSymbols 1)).2.2 img himg s hs 1
  obtain ⟨t, ht, -⟩ := hsection.2 hdefined
  refine ⟨(parse_strict {} ByteArray.empty).1 _ rfl, ⟨img, hstrict.1 hplaced, s, hs, hdefined, t, ht⟩,
    ?_⟩
  obtain ⟨before, r, after, hsplit, -, hr, herror⟩ :=
    ((parse_strict {} (threeSymbols 2)).2.1 img' himg').2 hmisplaced
  obtain ⟨hname, hnumber⟩ := honly r (by simp [hsplit]) hr
  rw [hname, hnumber, hcount] at herror
  exact herror

end Image

end MachImage
