import MachImage.Proofs.Image.Events
import Mathlib.Data.List.Dedup
import Mathlib.Data.List.Induction

/-!
# Names and their symbols

An image exposes its symbols under their names, except debugging entries and
symbols without a name.  Symbols can share a name, and then the last of them in
the table has it.

* A symbol behind a table takes its name over and leaves all others alone
  (`Image.getElem?_exposedNames_concat`), so by induction a name has the place of
  the last symbol of that name (`Image.getElem?_exposedNames_eq_some_iff`).
* Hence the symbol of a name is the last one of that name
  (`Image.symbol?_eq_some_iff`), and the exposed names are those of the symbols
  that are no debugging entries and have one, each counted once
  (`Image.nameCount_eq`).
* `Image.namesExposed_of_parse` puts this together for the questions about an
  image.  The exposed symbols may be listed in any order.
-/

namespace MachImage

/-! ## The last element with a property -/

section Last

variable {α : Type} {p : α → Prop} {l : List α} {a b : α} {i : Nat}

/-- The last element of a list that has a property, with its place: none behind it has it. -/
def LastAt (p : α → Prop) (l : List α) (i : Nat) (a : α) : Prop :=
  l[i]? = some a ∧ p a ∧ ∀ b ∈ l.drop (i + 1), ¬ p b

/-- An element at the end of a list is the last one with a property if it has it, and otherwise the
last one is that of the list before. -/
theorem lastAt_concat :
    LastAt p (l ++ [a]) i b ↔ (p a ∧ i = l.length ∧ b = a) ∨ (¬ p a ∧ LastAt p l i b) := by
  unfold LastAt
  rcases Nat.lt_trichotomy i l.length with hlt | rfl | hgt
  · -- before the end, where the element at the end is one of those behind
    rw [List.getElem?_append_left hlt, List.drop_append_of_le_length hlt, List.forall_mem_append,
      List.forall_mem_singleton]
    constructor
    · rintro ⟨hb, hp, hlater, hnot⟩
      exact Or.inr ⟨hnot, hb, hp, hlater⟩
    · rintro (⟨-, rfl, -⟩ | ⟨hnot, hb, hp, hlater⟩)
      · exact absurd hlt (Nat.lt_irrefl _)
      · exact ⟨hb, hp, hlater, hnot⟩
  · have hend : l[l.length]? = none := List.getElem?_eq_none (Nat.le_refl _)
    rw [List.getElem?_concat_length, hend, Option.some.injEq]
    constructor
    · rintro ⟨rfl, hp, -⟩
      exact Or.inl ⟨hp, rfl, rfl⟩
    · rintro (⟨hp, -, rfl⟩ | ⟨-, hb, -⟩)
      · exact ⟨rfl, hp, by simp⟩
      · cases hb
  · have hend : (l ++ [a])[i]? = none := List.getElem?_eq_none (by simp; omega)
    have hend' : l[i]? = none := List.getElem?_eq_none (by omega)
    rw [hend, hend']
    constructor
    · rintro ⟨hb, -⟩
      cases hb
    · rintro (⟨-, rfl, -⟩ | ⟨-, hb, -⟩)
      · exact absurd hgt (Nat.lt_irrefl _)
      · cases hb

/-- Among elements of which one has a property there is a last one. -/
theorem exists_lastAt_iff : (∃ i a, LastAt p l i a) ↔ ∃ a ∈ l, p a := by
  constructor
  · rintro ⟨i, a, ha, hp, -⟩
    exact ⟨a, List.mem_of_getElem? ha, hp⟩
  · induction l using List.reverseRecOn with
    | nil =>
      rintro ⟨a, ha, -⟩
      cases ha
    | append_singleton l b ih =>
      rintro ⟨a, ha, hp⟩
      by_cases hb : p b
      · exact ⟨l.length, b, lastAt_concat.2 (Or.inl ⟨hb, rfl, rfl⟩)⟩
      · have hmem : a ∈ l := by
          rcases List.mem_append.1 ha with hmem | hmem
          · exact hmem
          · rw [List.mem_singleton] at hmem
            exact absurd (hmem ▸ hp) hb
        obtain ⟨i, c, hc⟩ := ih ⟨a, hmem, hp⟩
        exact ⟨i, c, lastAt_concat.2 (Or.inr ⟨hb, hc⟩)⟩

end Last

/-! ## The table of names -/

/-- A symbol has a name and is no debugging entry. -/
def Symbol.IsNamed (name : String) (s : Symbol) : Prop := s.isStab = false ∧ s.name = name

instance (name : String) (s : Symbol) : Decidable (s.IsNamed name) :=
  inferInstanceAs (Decidable (_ ∧ _))

/-- A symbol is exposed under its own name, unless that is empty. -/
theorem Symbol.isExposed_iff (s : Symbol) (name : String) :
    s.isExposed = true ∧ s.name = name ↔ name ≠ "" ∧ s.IsNamed name := by
  simp only [isExposed, IsNamed, Bool.and_eq_true, Bool.not_eq_true', decide_eq_true_eq]
  constructor
  · rintro ⟨⟨hstab, hne⟩, rfl⟩
    exact ⟨hne, hstab, rfl⟩
  · rintro ⟨hne, hstab, rfl⟩
    exact ⟨⟨hstab, hne⟩, rfl⟩

namespace Image

variable {options : Options} {image : ByteArray} {img : Image}

/-- Symbols behind others are exposed over the names of those. -/
theorem names_expose_append (names : NameTable) (place : Nat) (symbols later : List Symbol) :
    (expose names place (symbols ++ later)).names =
      (expose (expose names place symbols).names (place + symbols.length) later).names := by
  induction symbols generalizing names place with
  | nil => rfl
  | cons s symbols ih =>
    rw [List.cons_append, List.length_cons, Nat.add_comm symbols.length, ← Nat.add_assoc]
    by_cases hexposed : s.isExposed = true
    · rw [expose, expose, if_pos hexposed, if_pos hexposed]
      exact ih _ _
    · rw [expose, expose, if_neg hexposed, if_neg hexposed]
      exact ih _ _

/-- A symbol behind others takes over the name that it is exposed under, and no other. -/
theorem getElem?_exposedNames_concat (symbols : List Symbol) (s : Symbol) (name : String) :
    (exposedNames (symbols ++ [s]))[name]? =
      if name ≠ "" ∧ s.IsNamed name then some symbols.length
      else (exposedNames symbols)[name]? := by
  have hstep : exposedNames (symbols ++ [s]) =
      if s.isExposed then (exposedNames symbols).insert s.name symbols.length
      else exposedNames symbols := by
    rw [exposedNames, names_expose_append, Nat.zero_add, expose]
    split <;> rfl
  simp only [hstep, ← Symbol.isExposed_iff]
  by_cases hexposed : s.isExposed = true
  · simp [hexposed, Std.TreeMap.getElem?_insert]
  · simp [hexposed]

/-- **A name has the place of the last symbol of that name**, debugging entries not counted.  The
empty name has none. -/
theorem getElem?_exposedNames_eq_some_iff {symbols : List Symbol} {name : String} {place : Nat} :
    (exposedNames symbols)[name]? = some place ↔
      name ≠ "" ∧ ∃ s, LastAt (Symbol.IsNamed name) symbols place s := by
  -- on the table from behind, where the last symbol decides
  induction symbols using List.reverseRecOn with
  | nil => simp [exposedNames, expose, LastAt]
  | append_singleton symbols s ih =>
    rw [getElem?_exposedNames_concat]
    by_cases hnamed : s.IsNamed name
    · by_cases hempty : name = ""
      · simp only [hempty, ne_eq, not_true_eq_false, false_and, if_false] at ih ⊢
        exact ih
      · simp [lastAt_concat, hnamed, hempty, eq_comm]
    · simp [lastAt_concat, hnamed, ih]

/-- A name is exposed if some symbol has it that is no debugging entry. -/
theorem mem_exposedNames_iff {symbols : List Symbol} {name : String} :
    name ∈ exposedNames symbols ↔ name ≠ "" ∧ ∃ s ∈ symbols, s.IsNamed name := by
  rw [Std.TreeMap.mem_iff_isSome_getElem?, Option.isSome_iff_exists, ← exists_lastAt_iff]
  simp only [getElem?_exposedNames_eq_some_iff, exists_and_left]

/-! ## The names of an image -/

theorem getElem?_names_eq_some_iff (h : parse image options = .ok img) {name : String}
    {place : Nat} :
    img.names[name]? = some place ↔
      name ≠ "" ∧ ∃ s, LastAt (Symbol.IsNamed name) img.symbols.toList place s := by
  rw [names_of_parse h]
  exact getElem?_exposedNames_eq_some_iff

/-- The symbol of a name is the last one of that name. -/
theorem symbol?_eq_some_iff (h : parse image options = .ok img) {name : String} {s : Symbol} :
    img.symbol? name = some s ↔
      name ≠ "" ∧ ∃ place, LastAt (Symbol.IsNamed name) img.symbols.toList place s := by
  rw [symbol?, Option.bind_eq_some_iff]
  constructor
  · rintro ⟨place, hplace, hs⟩
    obtain ⟨hne, t, ht⟩ := (getElem?_names_eq_some_iff h).1 hplace
    rw [← Array.getElem?_toList, ht.1, Option.some.injEq] at hs
    exact ⟨hne, place, hs ▸ ht⟩
  · rintro ⟨hne, place, hs⟩
    exact ⟨place, (getElem?_names_eq_some_iff h).2 ⟨hne, s, hs⟩,
      by rw [← Array.getElem?_toList, hs.1]⟩

/-- A name is listed with a symbol exactly if it stands for the symbol. -/
theorem mem_namedSymbols_iff {name : String} {s : Symbol} :
    (name, s) ∈ img.namedSymbols ↔ img.symbol? name = some s := by
  simp only [namedSymbols, symbol?, List.mem_filterMap, Option.bind_eq_some_iff,
    Option.map_eq_some_iff, Prod.mk.injEq, Prod.exists]
  constructor
  · rintro ⟨_, place, hplace, _, hs, rfl, rfl⟩
    exact ⟨place, Std.TreeMap.mem_toList_iff_getElem?_eq_some.1 hplace, hs⟩
  · rintro ⟨place, hplace, hs⟩
    exact ⟨name, place, Std.TreeMap.mem_toList_iff_getElem?_eq_some.2 hplace, s, hs, rfl, rfl⟩

/-- All names of an image are listed, each once. -/
theorem map_fst_namedSymbols (h : parse image options = .ok img) :
    img.namedSymbols.map Prod.fst = img.names.keys := by
  have hlisted : ∀ p ∈ img.names.toList,
      (img.symbols[p.2]?.map fun s => (p.1, s)).map Prod.fst = some p.1 := by
    intro p hp
    obtain ⟨-, s, hs⟩ :=
      (getElem?_names_eq_some_iff h).1 (Std.TreeMap.mem_toList_iff_getElem?_eq_some.1 hp)
    rw [← Array.getElem?_toList, hs.1]
    rfl
  rw [← Std.TreeMap.map_fst_toList_eq_keys, namedSymbols, List.map_filterMap,
    List.filterMap_congr hlisted]
  exact congrFun List.filterMap_eq_map _

/-- There are as many exposed names as different names of symbols that are exposed. -/
theorem nameCount_eq (h : parse image options = .ok img) :
    img.nameCount =
      ((img.symbols.toList.filter fun s => !s.isStab && s.name ≠ "").map
        Symbol.name).dedup.length := by
  have hmem : ∀ name, name ∈ img.names.keys ↔ name ∈
      ((img.symbols.toList.filter fun s => !s.isStab && s.name ≠ "").map Symbol.name).dedup := by
    intro name
    rw [Std.TreeMap.mem_keys, names_of_parse h, mem_exposedNames_iff, List.mem_dedup]
    simp only [List.mem_map, List.mem_filter, and_assoc, ← exists_and_left]
    refine exists_congr fun s => ?_
    have hexposed := s.isExposed_iff name
    unfold Symbol.isExposed at hexposed
    rw [hexposed]
    exact and_left_comm
  have hperm := (List.perm_ext_iff_of_nodup Std.TreeMap.nodup_keys (List.nodup_dedup _)).2 hmem
  rw [nameCount, ← Std.TreeMap.length_keys, hperm.length_eq]

/-- The names of an image and the symbols that they stand for. -/
structure NamesExposed (img : Image) : Prop where
  /-- A name stands for a symbol if it is not empty and some symbol has it that is no debugging
  entry. -/
  isSome_symbol?_iff : ∀ name, (img.symbol? name).isSome = true ↔
    name ≠ "" ∧ ∃ s ∈ img.symbols.toList, s.IsNamed name
  /-- Then it stands for the last one in the table. -/
  of_last : ∀ name s, img.symbol? name = some s ↔
    name ≠ "" ∧ ∃ place, LastAt (Symbol.IsNamed name) img.symbols.toList place s
  /-- In whatever order the exposed symbols are listed, each name is there once, with its symbol. -/
  listed : ∀ listing : List (String × Symbol), listing.Perm img.namedSymbols →
    (listing.map Prod.fst).Nodup ∧ ∀ name s, (name, s) ∈ listing ↔ img.symbol? name = some s
  /-- No debugging entry and no symbol without a name is exposed. -/
  exposed : ∀ name s, (name, s) ∈ img.namedSymbols → s.isStab = false ∧ s.name ≠ "" ∧ s.name = name
  /-- The names are counted once each. -/
  count_eq : img.nameCount =
    ((img.symbols.toList.filter fun s => !s.isStab && s.name ≠ "").map Symbol.name).dedup.length

/-- **The last symbol of a name has it.**  An image exposes the names of its symbols, debugging
entries and empty names excepted, and each name stands for the last symbol that has it. -/
theorem namesExposed_of_parse (h : parse image options = .ok img) : NamesExposed img where
  isSome_symbol?_iff name := by
    rw [Option.isSome_iff_exists, ← exists_lastAt_iff, ← exists_and_left]
    simp only [symbol?_eq_some_iff h]
    constructor
    · rintro ⟨s, hne, place, hs⟩
      exact ⟨place, hne, s, hs⟩
    · rintro ⟨place, hne, s, hs⟩
      exact ⟨s, hne, place, hs⟩
  of_last name s := symbol?_eq_some_iff h
  listed listing hperm := by
    constructor
    · rw [(hperm.map Prod.fst).nodup_iff, map_fst_namedSymbols h]
      exact Std.TreeMap.nodup_keys
    · intro name s
      rw [hperm.mem_iff]
      exact mem_namedSymbols_iff
  exposed name s hmem := by
    obtain ⟨hne, place, -, ⟨hstab, rfl⟩, -⟩ :=
      (symbol?_eq_some_iff h).1 (mem_namedSymbols_iff.1 hmem)
    exact ⟨hstab, hne, rfl⟩
  count_eq := nameCount_eq h

/-- An image with five symbols: `a` at 1, `b` at 2, `a` at 3, a debugging entry `a` at 4, and an
entry without a name. -/
def sharedNames : ByteArray := ⟨#[
  0xCE, 0xFA, 0xED, 0xFE, 12, 0, 0, 0, 9, 0, 0, 0, 2, 0, 0, 0, 1, 0, 0, 0, 24, 0, 0, 0, 0, 0, 0, 0,
  2, 0, 0, 0, 24, 0, 0, 0, 52, 0, 0, 0, 5, 0, 0, 0, 112, 0, 0, 0, 4, 0, 0, 0,
  1, 0, 0, 0, 1, 0, 0, 0, 1, 0, 0, 0,
  3, 0, 0, 0, 1, 0, 0, 0, 2, 0, 0, 0,
  1, 0, 0, 0, 1, 0, 0, 0, 3, 0, 0, 0,
  1, 0, 0, 0, 0x24, 0, 0, 0, 4, 0, 0, 0,
  0, 0, 0, 0, 1, 0, 0, 0, 5, 0, 0, 0,
  0, 0x61, 0, 0x62]⟩

/-- The last `a` that is no debugging entry is at place 2. -/
theorem sharedNames_lastAt :
    ∃ img s, parse sharedNames = .ok img ∧
      LastAt (Symbol.IsNamed "a") img.symbols.toList 2 s ∧ s.value = 3 := by
  obtain ⟨img, himg, hplace, hlater⟩ : ∃ img, parse sharedNames = .ok img ∧
      (img.symbols.toList[2]?.any fun s => s.IsNamed "a" ∧ s.value = 3) = true ∧
      ∀ s ∈ img.symbols.toList.drop 3, ¬ s.IsNamed "a" := by
    apply exists_of_parse_check
    decide +kernel
  obtain ⟨s, hs, hmatch⟩ := (Option.any_eq_true _ _).1 hplace
  obtain ⟨hnamed, hvalue⟩ := of_decide_eq_true hmatch
  exact ⟨img, s, himg, ⟨hs, hnamed, hlater⟩, hvalue⟩

theorem sharedNames_namesExposed :
    ∃ img, parse sharedNames = .ok img ∧ NamesExposed img ∧
      (img.symbol? "a").map Symbol.value = some 3 := by
  obtain ⟨img, s, himg, hlast, hvalue⟩ := sharedNames_lastAt
  have hnames := namesExposed_of_parse himg
  have ha := (hnames.of_last "a" s).2 ⟨by decide, 2, hlast⟩
  exact ⟨img, himg, hnames, by rw [ha, Option.map_some, hvalue]⟩

end Image

end MachImage
