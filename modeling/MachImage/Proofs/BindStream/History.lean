import MachImage.Proofs.BindStream.Accepted

/-!
# What a binding owes to the instructions before it

A binding says what the instructions before it have set.  `Program.recorded` runs a
program and keeps with each binding the instructions that came before the one that
makes it.

* `Reflects` — what such instructions say of a state: whether a library and a type
  were ever set, and what the other parts can be at all.
* `Reflects.next` — every instruction that a stream may hold keeps it, and
  `Program.reflects_of_mem_recorded` follows by induction on the program.
* `Program.filter_prefix_run` — what is never taken back, once set, is set from some
  binding on: those without it are the first ones.
* `reflects_of_parse` — so for every accepted stream and its bindings.
-/

namespace MachImage.BindStream

/-- The opcodes that set the library. -/
def ordinalOpcodes : List Opcode := [.setOrdinalImmediate, .setOrdinalUnsigned, .setOrdinalSpecial]

/-- What the instructions before it say of a state. -/
structure Reflects (before : List Instruction) (s : State) : Prop where
  /-- There is no library exactly if none was set. -/
  library_eq_none_iff : s.library = none ↔ ∀ i ∈ before, i.operation.opcode ∉ ordinalOpcodes
  /-- There is no type exactly if none was set. -/
  type_eq_none_iff : s.type = none ↔ ∀ i ∈ before, i.operation.opcode ≠ .setType
  /-- A library given by its place is counted from one, and the place is a number that was given,
  which 32 bits can hold. -/
  index : ∀ n, s.library = some (.index n) →
    1 ≤ n.toNat ∧ n.toNat < 2 ^ 32 ∧ ∃ i ∈ before, i.ordinal? = some (n.toNat : Int)
  segment_le : s.segment ≤ 15
  /-- No bits but those of a weak import and of a definition that is not weak are set. -/
  flags : s.flags.bits &&& ~~~(0x1 ||| 0x8) = 0
  /-- The name holds no zero character. -/
  symbol : '\x00' ∉ s.symbol.toList

namespace Program

/-- The bindings of a run, each with the instructions that came before the one that makes it. -/
def recorded (before : List Instruction) (s : State) :
    List Instruction → List (List Instruction × Binding)
  | [] => []
  | i :: is => (i.bindings s).map (before, ·) ++ recorded (before ++ [i]) (i.next s) is

/-- Without what is kept with them, they are the bindings of the run. -/
theorem map_snd_recorded (before : List Instruction) (s : State) (is : List Instruction) :
    (recorded before s is).map Prod.snd = run s is := by
  induction is generalizing before s with
  | nil => rfl
  | cons i is ih =>
    rw [recorded, run, List.map_append, List.map_map, ih]
    exact congrArg (· ++ run (i.next s) is) (List.map_id _)

end Program

/-! ## States -/

namespace Instruction

/-- An instruction makes bindings of the state moved on. -/
theorem exists_advance_of_mem_bindings {i : Instruction} {s : State} {b : Binding}
    (h : b ∈ i.bindings s) : ∃ distance, b = s.advance distance := by
  obtain ⟨op, imm⟩ := i
  cases op with
  | bind | bindAddAddress | bindAddScaled =>
    obtain rfl : b = s := List.mem_singleton.1 h
    exact ⟨0, (State.advance_zero b).symm⟩
  | bindRepeated count skip =>
    rw [bindings_bindRepeated] at h
    obtain ⟨k, -, rfl⟩ := List.mem_map.1 h
    exact ⟨_, rfl⟩
  | _ => cases h

/-- The opcodes that set the library are those of instructions that give an ordinal. -/
theorem exists_ordinal? {i : Instruction} (h : i.operation.opcode ∈ ordinalOpcodes) :
    ∃ n, i.ordinal? = some n := by
  obtain ⟨op, imm⟩ := i
  cases op with
  | setOrdinalImmediate | setOrdinalUnsigned | setOrdinalSpecial => exact ⟨_, rfl⟩
  | _ => exact absurd h (of_decide_eq_true rfl)

end Instruction

/-- The place of a library is the number that was given for it. -/
theorem ofSigned?_eq_index {n : Int} {place : UInt32}
    (h : LibraryOrdinal.ofSigned? n = some (.index place)) : 1 ≤ place.toNat ∧ n = place.toNat := by
  unfold LibraryOrdinal.ofSigned? at h
  split_ifs at h with _ _ _ _ hrange
  · cases h
  · cases h
  · cases h
  · cases h
  · cases h
    rw [UInt32.toNat_ofNat_of_lt' (by omega)]
    omega

/-- Only flags that have a name are kept. -/
theorem bits_ofBits_and_not (bits : UInt32) :
    (Flags.ofBits symbolFlags bits).bits &&& ~~~(0x1 ||| 0x8) = 0 := by
  have hmask : symbolFlags.mask &&& ~~~(0x1 ||| 0x8) = 0 := by decide
  rw [Flags.ofBits, UInt32.and_assoc, hmask, UInt32.and_zero]

namespace Reflects

variable {before : List Instruction} {s : State} {i : Instruction}

/-- Before the first instruction nothing is set. -/
theorem initial : Reflects [] {} where
  library_eq_none_iff := iff_of_true rfl nofun
  type_eq_none_iff := iff_of_true rfl nofun
  index := nofun
  segment_le := by decide
  flags := by decide
  symbol := by decide

/-- Where a state is does not matter. -/
theorem advance (h : Reflects before s) (distance : UInt32) :
    Reflects before (s.advance distance) :=
  { h with }

theorem library_concat (h : Reflects before s) (hordinal : i.operation.opcode ∉ ordinalOpcodes) :
    s.library = none ↔ ∀ j ∈ before ++ [i], j.operation.opcode ∉ ordinalOpcodes := by
  rw [h.library_eq_none_iff, List.forall_mem_append, List.forall_mem_singleton,
    and_iff_left hordinal]

theorem type_concat (h : Reflects before s) (htype : i.operation.opcode ≠ .setType) :
    s.type = none ↔ ∀ j ∈ before ++ [i], j.operation.opcode ≠ .setType := by
  rw [h.type_eq_none_iff, List.forall_mem_append, List.forall_mem_singleton, and_iff_left htype]

theorem index_concat (h : Reflects before s) (n : UInt32) (hn : s.library = some (.index n)) :
    1 ≤ n.toNat ∧ n.toNat < 2 ^ 32 ∧ ∃ j ∈ before ++ [i], j.ordinal? = some (n.toNat : Int) := by
  obtain ⟨hpos, hlt, j, hj, hnumber⟩ := h.index n hn
  exact ⟨hpos, hlt, j, List.mem_append_left _ hj, hnumber⟩

/-- An instruction that sets neither a library nor a type. -/
theorem pass (h : Reflects before s) (hordinal : i.operation.opcode ∉ ordinalOpcodes)
    (htype : i.operation.opcode ≠ .setType) : Reflects (before ++ [i]) s :=
  { h with
    library_eq_none_iff := h.library_concat hordinal
    type_eq_none_iff := h.type_concat htype
    index := h.index_concat }

/-- An instruction that sets the library. -/
theorem setLibrary (h : Reflects before s) (hi : i.isEncodable = true)
    (hordinal : i.operation.opcode ∈ ordinalOpcodes) (htype : i.operation.opcode ≠ .setType) :
    Reflects (before ++ [i]) { s with library := i.ordinal?.bind LibraryOrdinal.ofSigned? } := by
  obtain ⟨n, hn⟩ := Instruction.exists_ordinal? hordinal
  obtain ⟨ordinal, hsome, -⟩ := Instruction.ofSigned?_ordinal? hi {} hn
  have hmem : i ∈ before ++ [i] := List.mem_append_right _ (List.mem_singleton_self i)
  rw [hn, Option.bind_some, hsome]
  refine { h with library_eq_none_iff := ?_, type_eq_none_iff := h.type_concat htype, index := ?_ }
  · exact iff_of_false nofun fun hnone => hnone i hmem hordinal
  · intro place hplace
    cases hplace
    obtain ⟨hpos, rfl⟩ := ofSigned?_eq_index hsome
    exact ⟨hpos, place.toNat_lt, i, hmem, hn⟩

/-- An instruction that sets the type. -/
theorem setType (h : Reflects before s) (hordinal : i.operation.opcode ∉ ordinalOpcodes)
    (htype : i.operation.opcode = .setType) (type : BindType) :
    Reflects (before ++ [i]) { s with type := some type } :=
  have hmem : i ∈ before ++ [i] := List.mem_append_right _ (List.mem_singleton_self i)
  { h with
    library_eq_none_iff := h.library_concat hordinal
    type_eq_none_iff := iff_of_false nofun fun hnone => hnone i hmem htype
    index := h.index_concat }

/-- **One instruction.**  What the instructions before it say of a state, they and it say of the
state after it. -/
theorem next (h : Reflects before s) (hi : i.isEncodable = true) :
    Reflects (before ++ [i]) (i.next s) := by
  have himm := Instruction.immediate_lt hi
  obtain ⟨op, imm⟩ := i
  cases op with
  | setOrdinalImmediate | setOrdinalUnsigned | setOrdinalSpecial =>
    exact h.setLibrary hi (of_decide_eq_true rfl) (of_decide_eq_true rfl)
  | setType => exact h.setType (of_decide_eq_true rfl) rfl _
  | setSymbol name =>
    exact { h.pass (of_decide_eq_true rfl) (of_decide_eq_true rfl) with
      flags := bits_ofBits_and_not imm.toUInt32
      symbol := Instruction.zero_notMem_name hi rfl }
  | setSegmentAndOffset offset =>
    exact { h.pass (of_decide_eq_true rfl) (of_decide_eq_true rfl) with
      segment_le := by
        rw [Instruction.next, UInt8.le_iff_toNat_le]
        exact Nat.le_of_lt_succ (UInt8.lt_iff_toNat_lt.1 himm) }
  | setAddend addend => exact { h.pass (of_decide_eq_true rfl) (of_decide_eq_true rfl) with }
  | done => exact h.pass (of_decide_eq_true rfl) (of_decide_eq_true rfl)
  | bindRepeated count skip =>
    rw [Instruction.next_bindRepeated]
    exact (h.pass (of_decide_eq_true rfl) (of_decide_eq_true rfl)).advance _
  | addAddress | bind | bindAddAddress | bindAddScaled =>
    exact (h.pass (of_decide_eq_true rfl) (of_decide_eq_true rfl)).advance _

end Reflects

/-! ## Runs -/

namespace Program

/-- **Whole runs.**  Every binding of a run is what the instructions kept with it say. -/
theorem reflects_of_mem_recorded {before : List Instruction} {s : State} {is : List Instruction}
    (hs : Reflects before s) (his : ∀ i ∈ is, i.isEncodable = true)
    {entry : List Instruction × Binding} (h : entry ∈ recorded before s is) :
    Reflects entry.1 entry.2 := by
  induction is generalizing before s with
  | nil => cases h
  | cons i is ih =>
    rcases List.mem_append.1 h with hfirst | hlater
    · obtain ⟨b, hb, rfl⟩ := List.mem_map.1 hfirst
      obtain ⟨distance, rfl⟩ := Instruction.exists_advance_of_mem_bindings hb
      exact hs.advance distance
    · exact ih (hs.next (his i (List.mem_cons_self ..)))
        (fun j hj => his j (List.mem_cons_of_mem i hj)) hlater

section Setting

/-! What does not depend on the offset, and is never taken back once it holds. -/

variable {p : State → Bool} (hadvance : ∀ s distance, p (s.advance distance) = p s)
include hadvance

theorem eq_of_mem_bindings {i : Instruction} {s : State} {b : Binding} (h : b ∈ i.bindings s) :
    p b = p s := by
  obtain ⟨distance, rfl⟩ := Instruction.exists_advance_of_mem_bindings h
  exact hadvance s distance

/-- Where it holds of the state, it holds of every binding from there on. -/
theorem forall_mem_run {is : List Instruction}
    (hnext : ∀ i ∈ is, ∀ s, p s = true → p (i.next s) = true) {s : State} (hs : p s = true) :
    ∀ b ∈ run s is, p b = true := by
  induction is generalizing s with
  | nil => nofun
  | cons i is ih =>
    intro b hb
    rcases List.mem_append.1 hb with hfirst | hlater
    · rw [eq_of_mem_bindings hadvance hfirst, hs]
    · exact ih (fun j hj => hnext j (List.mem_cons_of_mem i hj))
        (hnext i (List.mem_cons_self ..) s hs) b hlater

/-- The bindings that it does not hold of are the first ones. -/
theorem filter_prefix_run {is : List Instruction}
    (hnext : ∀ i ∈ is, ∀ s, p s = true → p (i.next s) = true) (s : State) :
    (run s is).filter (fun b => !p b) <+: run s is := by
  induction is generalizing s with
  | nil => exact List.nil_prefix
  | cons i is ih =>
    cases hs : p s with
    | true =>
      -- it holds of all bindings
      have hnone : (run s (i :: is)).filter (fun b => !p b) = [] := by
        rw [List.filter_eq_nil_iff]
        intro b hb
        simp [forall_mem_run hadvance hnext hs b hb]
      rw [hnone]
      exact List.nil_prefix
    | false =>
      -- it holds of none of those that the first instruction makes
      have hall : (i.bindings s).filter (fun b => !p b) = i.bindings s := by
        rw [List.filter_eq_self]
        intro b hb
        simp [eq_of_mem_bindings hadvance hb, hs]
      rw [run, List.filter_append, hall, List.prefix_append_right_inj]
      exact ih (fun j hj => hnext j (List.mem_cons_of_mem i hj)) (i.next s)

end Setting

end Program

/-- Once a library is set there is one, whatever comes after. -/
theorem isSome_library_next {i : Instruction} (hi : i.isEncodable = true) {s : State}
    (hs : s.library.isSome = true) : (i.next s).library.isSome = true := by
  have hordinal : ∀ n, i.ordinal? = some n →
      (i.ordinal?.bind LibraryOrdinal.ofSigned?).isSome = true := by
    intro n hn
    obtain ⟨ordinal, hsome, -⟩ := Instruction.ofSigned?_ordinal? hi {} hn
    rw [hn, Option.bind_some, hsome]
    rfl
  obtain ⟨op, imm⟩ := i
  cases op with
  | setOrdinalImmediate | setOrdinalUnsigned | setOrdinalSpecial => exact hordinal _ rfl
  | bindRepeated count skip =>
    rw [Instruction.next_bindRepeated]
    exact hs
  | _ => exact hs

/-- Once a type is set there is one, whatever comes after. -/
theorem isSome_type_next (i : Instruction) {s : State} (hs : s.type.isSome = true) :
    (i.next s).type.isSome = true := by
  obtain ⟨op, imm⟩ := i
  cases op with
  | setType => rfl
  | bindRepeated count skip =>
    rw [Instruction.next_bindRepeated]
    exact hs
  | _ => exact hs

/-- **Every binding is what the instructions before it say.**  An accepted stream makes bindings
that each reflect the instructions before the one that makes it: a library or a type is missing
exactly if none of them sets one.  So the bindings without a library are the first ones, and so are
those without a type. -/
theorem reflects_of_parse {bs : List UInt8} {r : List Binding} (h : parse bs = .ok r) :
    (Program.recorded [] {} (Program.decode bs).instructions).map Prod.snd = r ∧
      (∀ entry ∈ Program.recorded [] {} (Program.decode bs).instructions,
        Reflects entry.1 entry.2) ∧
      r.filter (fun b => b.library.isNone) <+: r ∧
      r.filter (fun b => b.type.isNone) <+: r := by
  obtain ⟨-, rfl⟩ := parse_eq_ok_iff.1 h
  have hencodable : ∀ i ∈ (Program.decode bs).instructions, i.isEncodable = true :=
    fun i hi => Program.isEncodable_of_mem hi
  have hlibrary := Program.filter_prefix_run (p := fun s => s.library.isSome) (fun _ _ => rfl)
    (fun i hi s => isSome_library_next (hencodable i hi)) {}
  have htype := Program.filter_prefix_run (p := fun s => s.type.isSome) (fun _ _ => rfl)
    (fun i (_ : i ∈ (Program.decode bs).instructions) s => isSome_type_next i) {}
  simp only [Option.not_isSome] at hlibrary htype
  exact ⟨Program.map_snd_recorded [] {} _,
    fun entry => Program.reflects_of_mem_recorded .initial hencodable, hlibrary, htype⟩

/-- A stream that binds before it sets a library and a type, between the two, and after both. -/
def setsLate : List UInt8 := [0x90, 0x12, 0x90, 0x51, 0x90]

theorem reflects_setsLate :
    ∃ r, parse setsLate = .ok r ∧ r.map Binding.library = [none, some (.index 2), some (.index 2)] ∧
      r.map Binding.type = [none, none, some .pointer] ∧
      (∀ entry ∈ Program.recorded [] {} (Program.decode setsLate).instructions,
        Reflects entry.1 entry.2) ∧
      r.filter (fun b => b.library.isNone) <+: r ∧
      r.filter (fun b => b.type.isNone) <+: r := by
  have hparse : parse setsLate = .ok
      [{}, { library := some (.index 2), offset := 4 },
        { library := some (.index 2), type := some .pointer, offset := 8 }] := rfl
  obtain ⟨-, hreflects, hlibrary, htype⟩ := reflects_of_parse hparse
  exact ⟨_, hparse, rfl, rfl, hreflects, hlibrary, htype⟩

end MachImage.BindStream
