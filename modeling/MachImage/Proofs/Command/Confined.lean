import MachImage.Proofs.Command.Decode
import MachImage.Proofs.Reader.Agreement

/-!
# What a command is read from

The body of a command is read from the bytes of the command and from the
tables that its record declares (`Command.tablesAt`), and from nothing else:
two images that agree there give the same outcome
(`Command.agrees_readBody`).  The readers of the bodies share one cursor and
follow offsets and counts that the file chooses, so this is what the checks of
the declared length are for.
-/

namespace MachImage

/-- The record that a command of a shape starts with. -/
def CommandShape.record : CommandShape → Record
  | .segment => .segment
  | .symtab => .symtab
  | .dysymtab => .dysymtab
  | .dylib => .dylib
  | .path => .path
  | .uuid => .uuid
  | .thread => .thread
  | .encryption => .encryptionInfo
  | .linkedit => .linkeditData
  | .versionMin => .versionMin
  | .dyldInfo => .dyldInfo
  | .main => .entryPoint
  | .sourceVersion => .sourceVersion
  | .buildVersion => .buildVersion

namespace Command

/-- The tables outside of a command that the record at a position declares, each by its start and
its count of bytes. -/
def declaredTables (image : ByteArray) (pos : Nat) : CommandShape → List (Nat × Nat)
  | .symtab =>
    [((word image (pos + 16)).toNat, (word image (pos + 20)).toNat),
      ((word image (pos + 8)).toNat, 12 * (word image (pos + 12)).toNat)]
  | .dysymtab => [((word image (pos + 56)).toNat, 4 * (word image (pos + 60)).toNat)]
  | .dyldInfo =>
    [((word image (pos + 16)).toNat, (word image (pos + 20)).toNat),
      ((word image (pos + 24)).toNat, (word image (pos + 28)).toNat),
      ((word image (pos + 32)).toNat, (word image (pos + 36)).toNat)]
  | _ => []

/-- The tables that a command declares.  One that is too short for its record declares none. -/
def tablesAt (image : ByteArray) (h : CommandHeader) (shape : CommandShape) : List (Nat × Nat) :=
  if h.length.toNat < shape.record.size then [] else declaredTables image h.offset shape

theorem tablesAt_of_le {image : ByteArray} {h : CommandHeader} (shape : CommandShape)
    (hrecord : shape.record.size ≤ h.length.toNat) :
    tablesAt image h shape = declaredTables image h.offset shape :=
  if_neg (Nat.not_lt_of_le hrecord)

end Command

/-! ## Entries of tables -/

namespace SymbolEntry

variable {excused : Error → Prop} {image other : ByteArray} {pos : Nat}

/-- The name of an entry is taken from the table of names, not from the image. -/
theorem agrees_readName (names : ByteArray) (start offset : Nat) :
    (readName names start offset).Agrees excused image other pos := by
  unfold readName
  by_cases hzero : offset = 0
  · rw [if_pos hzero]
    exact Reader.agrees_pure _
  · rw [if_neg hzero]
    by_cases hle : offset ≤ names.size
    · rw [if_pos hle]
      exact Reader.agrees_pure _
    · rw [if_neg hle]
      exact Reader.agrees_map (Reader.agrees_note _)

theorem agrees_read (hsize : Comparable excused image other) (names : ByteArray)
    (hbytes : AgreeOn image other pos 12) :
    (SymbolEntry.read names).Agrees excused image other pos := by
  unfold SymbolEntry.read
  refine Reader.agrees_bind Reader.agrees_position fun start cursor hstart => ?_
  obtain ⟨rfl, rfl⟩ := Reader.yields_position.1 hstart
  refine Reader.agrees_bind (Reader.agrees_record hsize hbytes) fun v _ _ => ?_
  exact Reader.agrees_map (agrees_readName names _ _)

end SymbolEntry

namespace Command

variable {α : Type} {excused : Error → Prop} {image other : ByteArray} {pos : Nat}
  {options : Options} {h : CommandHeader}

theorem agrees_readSection (hsize : Comparable excused image other)
    (hbytes : AgreeOn image other pos 68) : readSection.Agrees excused image other pos :=
  Reader.agrees_map (Reader.agrees_record hsize hbytes)

theorem agrees_readTool (hsize : Comparable excused image other)
    (hbytes : AgreeOn image other pos 8) : readTool.Agrees excused image other pos :=
  Reader.agrees_map (Reader.agrees_record hsize hbytes)

/-! ## Records and names

From here on the two images agree on the bytes of the command. -/

section Command

variable (hsize : Comparable excused image other)
  (hcommand : AgreeOn image other h.offset h.length.toNat)

include hsize hcommand

/-- The record of a command lies in the command, or is not read. -/
theorem agrees_readRecord_bind {r : Record} {f : r.Values → Reader α}
    (hf : r.size ≤ h.length.toNat →
      (f (r.layout.readAt image h.offset)).Agrees excused image other (h.offset + r.size)) :
    (readRecord h r >>= f).Agrees excused image other h.offset := by
  refine Reader.agrees_bind ?_ fun v cursor hyields => ?_
  · refine Reader.agrees_unless fun hfits => Reader.agrees_record hsize ?_
    exact hcommand.mono (Nat.le_refl _) (by omega)
  · rw [readRecord, Reader.yields_unless, Reader.yields_record] at hyields
    obtain ⟨hfits, -, rfl, rfl⟩ := hyields
    exact hf (Nat.le_of_not_lt hfits)

/-- A body that is computed from the record alone. -/
theorem agrees_readRecord_map {r : Record} {f : r.Values → CommandBody} :
    (readRecord h r >>= fun v => Pure.pure (f v)).Agrees excused image other h.offset :=
  agrees_readRecord_bind hsize hcommand fun _ => Reader.agrees_pure _

/-- A name in a command lies in the command, whether it has a zero byte or not. -/
theorem agrees_readName (nameOffset : UInt32) :
    (readName h nameOffset).Agrees excused image other pos := by
  refine Reader.agrees_unless fun hle => Reader.agrees_seek_bind hsize ?_
  rw [UInt32.not_lt] at hle
  refine Reader.agrees_fixedName hsize (hcommand.mono (Nat.le_add_right _ _) ?_)
  rw [UInt32.toNat_sub_of_le _ _ hle]
  have hnat := UInt32.le_iff_toNat_le.1 hle
  omega

omit hsize in
/-- A table of entries of `k` bytes that follows the record of a command lies in the command, or is
not read. -/
theorem agrees_table {r : Reader α} {k n base : Nat}
    (hmoves : ∀ {p a c}, r.Yields image p a c → c = p + k)
    (hr : ∀ {p}, AgreeOn image other p k → r.Agrees excused image other p) {e : Error}
    {g : List α → CommandBody} :
    (if h.length.toNat < base + n * k then Reader.fail e
      else Reader.times n r >>= fun as => Pure.pure (g as) : Reader CommandBody).Agrees
        excused image other (h.offset + base) := by
  refine Reader.agrees_unless fun hfits => Reader.agrees_map ?_
  refine Reader.agrees_times hmoves fun i hi => hr ?_
  have hentry : k * (i + 1) ≤ k * n := Nat.mul_le_mul_left k hi
  rw [Nat.mul_succ] at hentry
  rw [Nat.mul_comm n k] at hfits
  exact hcommand.mono (by omega) (by omega)

/-! ## Bodies without tables -/

theorem agrees_readSegment : (readSegment h).Agrees excused image other h.offset := by
  refine agrees_readRecord_bind hsize hcommand fun _ => ?_
  exact agrees_table hcommand (fun hyields => (yields_readSection.1 hyields).2.2)
    (agrees_readSection hsize)

theorem agrees_readBuildVersion : (readBuildVersion h).Agrees excused image other h.offset := by
  refine agrees_readRecord_bind hsize hcommand fun _ => ?_
  exact agrees_table hcommand (fun hyields => (yields_readTool.1 hyields).2.2)
    (agrees_readTool hsize)

theorem agrees_readDylib : (readDylib h).Agrees excused image other h.offset := by
  refine agrees_readRecord_bind hsize hcommand fun _ => ?_
  exact Reader.agrees_map (agrees_readName hsize hcommand _)

theorem agrees_readPath : (readPath h).Agrees excused image other h.offset := by
  refine agrees_readRecord_bind hsize hcommand fun _ => ?_
  exact Reader.agrees_map (agrees_readName hsize hcommand _)

theorem agrees_readThread : (readThread h).Agrees excused image other h.offset := by
  have hrecord : Record.thread.size = 16 := rfl
  have hstate : Record.armThreadState.size = 68 := rfl
  refine agrees_readRecord_bind hsize hcommand fun _ => ?_
  refine Reader.agrees_unless fun hfits => Reader.agrees_map ?_
  exact Reader.agrees_record hsize (hcommand.mono (by omega) (by omega))

end Command

/-! ## Tables elsewhere -/

section Tables

variable (hsize : Comparable excused image other)

include hsize

/-- The entries of a symbol table are read from the table of names and from the table of entries. -/
theorem agrees_entries {symbolOffset symbolCount nameOffset nameSize : Nat}
    (hnames : AgreeOn image other nameOffset nameSize)
    (hsymbols : AgreeOn image other symbolOffset (12 * symbolCount)) :
    (do
        Reader.seek nameOffset
        let names ← Reader.slice nameSize
        Reader.seek symbolOffset
        Reader.times symbolCount (SymbolEntry.read names) : Reader (List SymbolEntry)).Agrees
      excused image other pos := by
  refine Reader.agrees_seek_bind hsize ?_
  refine Reader.agrees_bind (Reader.agrees_slice hsize hnames) fun names _ _ => ?_
  refine Reader.agrees_seek_bind hsize ?_
  refine Reader.agrees_times (fun hyields => (SymbolEntry.yields_read.1 hyields).2.2)
    fun i hi => SymbolEntry.agrees_read hsize names ?_
  exact hsymbols.mono (by omega) (by omega)

/-- The numbers of an indirect symbol table are read from the table alone. -/
theorem agrees_readIndirect {offset count : UInt32}
    (htable : AgreeOn image other offset.toNat (4 * count.toNat)) :
    (readIndirect offset count).Agrees excused image other pos := by
  unfold readIndirect
  by_cases hcount : count = 0
  · rw [if_pos hcount]
    exact Reader.agrees_pure _
  · rw [if_neg hcount]
    exact Reader.agrees_within (Reader.agrees_seek_bind hsize (Reader.agrees_words hsize htable))

/-- The bindings of a stream are read from the stream alone. -/
theorem agrees_readBindings {offset size : UInt32}
    (hstream : AgreeOn image other offset.toNat size.toNat) :
    (readBindings options offset size).Agrees excused image other pos := by
  unfold readBindings
  by_cases hread : (size = 0 || !options.bindInfo) = true
  · rw [if_pos hread]
    exact Reader.agrees_pure _
  · rw [if_neg hread]
    refine Reader.agrees_within (Reader.agrees_seek_bind hsize ?_)
    refine Reader.agrees_bind (Reader.agrees_bytes hsize hstream) fun stream _ _ => ?_
    exact Reader.agrees_map (Reader.agrees_report _ _)

variable (hcommand : AgreeOn image other h.offset h.length.toNat)

include hcommand

theorem agrees_readSymtab (htables : ∀ t ∈ tablesAt image h .symtab, AgreeOn image other t.1 t.2) :
    (readSymtab h).Agrees excused image other h.offset := by
  refine agrees_readRecord_bind hsize hcommand fun hrecord => ?_
  rw [tablesAt_of_le .symtab hrecord] at htables
  have hnames := htables _ List.mem_cons_self
  have hsymbols := htables _ (List.mem_cons_of_mem _ List.mem_cons_self)
  refine Reader.agrees_bind (Reader.agrees_within (agrees_entries hsize hnames hsymbols))
    fun entries _ _ => ?_
  exact Reader.agrees_map (Reader.agrees_note _)

theorem agrees_readDysymtab
    (htables : ∀ t ∈ tablesAt image h .dysymtab, AgreeOn image other t.1 t.2) :
    (readDysymtab h).Agrees excused image other h.offset := by
  refine agrees_readRecord_bind hsize hcommand fun hrecord => ?_
  rw [tablesAt_of_le .dysymtab hrecord] at htables
  have htable := htables _ List.mem_cons_self
  refine Reader.agrees_map ?_
  exact agrees_readIndirect hsize htable

theorem agrees_readDyldInfo
    (htables : ∀ t ∈ tablesAt image h .dyldInfo, AgreeOn image other t.1 t.2) :
    (readDyldInfo options h).Agrees excused image other h.offset := by
  refine agrees_readRecord_bind hsize hcommand fun hrecord => ?_
  rw [tablesAt_of_le .dyldInfo hrecord] at htables
  have hbind := htables _ List.mem_cons_self
  have hweak := htables _ (List.mem_cons_of_mem _ List.mem_cons_self)
  have hlazy := htables _ (List.mem_cons_of_mem _ (List.mem_cons_of_mem _ List.mem_cons_self))
  refine Reader.agrees_bind (agrees_readBindings hsize hbind) fun _ _ _ => ?_
  refine Reader.agrees_bind (agrees_readBindings hsize hweak) fun _ _ _ => ?_
  refine Reader.agrees_bind (agrees_readBindings hsize hlazy) fun _ _ _ => ?_
  exact Reader.agrees_map (Reader.agrees_note _)

/-! ## Every shape -/

/-- **The body of a command is read from the command and from the tables it declares.** -/
theorem agrees_readBody (shape : CommandShape)
    (htables : ∀ t ∈ tablesAt image h shape, AgreeOn image other t.1 t.2) :
    (readBody options h shape).Agrees excused image other h.offset := by
  cases shape with
  | segment => exact agrees_readSegment hsize hcommand
  | symtab => exact agrees_readSymtab hsize hcommand htables
  | dysymtab => exact agrees_readDysymtab hsize hcommand htables
  | dylib => exact agrees_readDylib hsize hcommand
  | path => exact agrees_readPath hsize hcommand
  | uuid => exact agrees_readRecord_map hsize hcommand
  | thread => exact agrees_readThread hsize hcommand
  | encryption => exact agrees_readRecord_map hsize hcommand
  | linkedit => exact agrees_readRecord_map hsize hcommand
  | versionMin => exact agrees_readRecord_map hsize hcommand
  | dyldInfo => exact agrees_readDyldInfo hsize hcommand htables
  | main => exact agrees_readRecord_map hsize hcommand
  | sourceVersion => exact agrees_readRecord_map hsize hcommand
  | buildVersion => exact agrees_readBuildVersion hsize hcommand

end Tables

/-! ## Confinement -/

/-- The name of a symbol depends on the offset that its entry holds and on the table of names. -/
theorem nameOrNone_eq {start size : Nat} (hnames : AgreeOn image other start size)
    (hle : start + size ≤ image.size) (hword : AgreeOn image other pos 4)
    (hpos : pos + 4 ≤ image.size) :
    (SymbolEntry.entryAt image (image.extract start (start + size)) pos).name =
      (SymbolEntry.entryAt other (other.extract start (start + size)) pos).name := by
  rw [SymbolEntry.entryAt, SymbolEntry.entryAt, hnames.extract_eq hle, hword.word_eq hpos]

/-- The symbols of two images have the same names where their entries hold the same offsets, if the
images agree on the command and on the table of names. -/
theorem names_symtabAt_eq (hend : h.endOffset ≤ image.size)
    (hcommand : AgreeOn image other h.offset h.length.toNat)
    (hfits : CommandShape.symtab.Fits options image h.offset h.length.toNat)
    (hnames : AgreeOn image other (symtabAt image h.offset).nameOffset.toNat
      (symtabAt image h.offset).nameSize.toNat) {k : Nat}
    (hentry : AgreeOn image other ((symtabAt image h.offset).symbolOffset.toNat + 12 * k) 4) :
    (symtabAt image h.offset).entries[k]?.map SymbolEntry.name =
      (symtabAt other h.offset).entries[k]?.map SymbolEntry.name := by
  obtain ⟨hrecord, htable, hentries⟩ := hfits
  unfold CommandHeader.endOffset at hend
  have hword : ∀ d, d + 4 ≤ 24 → word image (h.offset + d) = word other (h.offset + d) := by
    intro d hd
    exact (hcommand.mono (Nat.le_add_right _ _) (by omega)).word_eq (by omega)
  unfold symtabAt at hnames hentry ⊢
  dsimp only at hnames hentry ⊢
  rw [← hword 8 (by omega), ← hword 12 (by omega), ← hword 16 (by omega), ← hword 20 (by omega),
    List.getElem?_map, List.getElem?_map]
  by_cases hk : k < (word image (h.offset + 12)).toNat
  · rw [List.getElem?_range hk, Option.map_some, Option.map_some, Option.map_some, Option.map_some,
      nameOrNone_eq hnames htable hentry (by omega)]
  · have hnone : (List.range (word image (h.offset + 12)).toNat)[k]? = none :=
      List.getElem?_eq_none (by rw [List.length_range]; omega)
    simp only [hnone, Option.map_none]

/-- **A command is confined to its own bytes and to the tables that it declares.**  Two images of
one size that agree there give the same outcome, the same body or the same failure.  A command
without tables depends on its own bytes alone, names, sections and tools included, and the name of
a symbol on the table of names and on the offset that its entry holds. -/
theorem readBody_confined (options : Options) (h : CommandHeader) {image other : ByteArray}
    (hsize : image.size = other.size) (hend : h.endOffset ≤ image.size)
    (hcommand : AgreeOn image other h.offset h.length.toNat) :
    (∀ shape, (∀ t ∈ tablesAt image h shape, AgreeOn image other t.1 t.2) →
      readBody options h shape image h.offset = readBody options h shape other h.offset) ∧
    (∀ shape, shape ∉ [.symtab, .dysymtab, .dyldInfo] →
      readBody options h shape image h.offset = readBody options h shape other h.offset) ∧
    ∀ s t, (readBody options h .symtab image h.offset).result = .ok (.symtab s) →
      (readBody options h .symtab other h.offset).result = .ok (.symtab t) →
      AgreeOn image other s.nameOffset.toNat s.nameSize.toNat →
      ∀ k, AgreeOn image other (s.symbolOffset.toNat + 12 * k) 4 →
        s.entries[k]?.map SymbolEntry.name = t.entries[k]?.map SymbolEntry.name := by
  have hcomparable : Comparable (fun _ => False) image other :=
    ⟨Nat.le_of_eq hsize, fun hne => absurd hsize hne⟩
  refine ⟨fun shape htables => ?_, fun shape hshape => ?_, fun s t hs ht hnames k hentry => ?_⟩
  · exact (agrees_readBody hcomparable hcommand shape htables).eq
  · have hnone : tablesAt image h shape = [] := by
      unfold tablesAt
      split
      · rfl
      · cases shape with
        | symtab | dysymtab | dyldInfo => simp at hshape
        | _ => rfl
    refine (agrees_readBody hcomparable hcommand shape fun t ht => ?_).eq
    rw [hnone] at ht
    cases ht
  · obtain ⟨hfits, hbody⟩ := (result_readBody hend).1 hs
    obtain ⟨-, hbody'⟩ := (result_readBody (hsize ▸ hend)).1 ht
    have hsymtab : s = symtabAt image h.offset := CommandBody.symtab.inj hbody
    have hsymtab' : t = symtabAt other h.offset := CommandBody.symtab.inj hbody'
    rw [hsymtab] at hnames hentry ⊢
    rw [hsymtab']
    exact names_symtabAt_eq hend hcommand hfits hnames hentry

/-- A symbol table whose only name, `abcd` without a zero byte, ends where its entry begins, with a
byte behind it all. -/
def unterminatedSymbol (last : UInt8) : ByteArray := ⟨#[
  2, 0, 0, 0, 24, 0, 0, 0, 28, 0, 0, 0, 1, 0, 0, 0, 24, 0, 0, 0, 4, 0, 0, 0,
  0x61, 0x62, 0x63, 0x64,
  1, 0, 0, 0, 0x0F, 1, 0, 0, 0x10, 0, 0, 0,
  last]⟩

/-- The header of its command. -/
def unterminatedHeader : CommandHeader := ⟨.symtab, 24, 0⟩

theorem unterminatedSymbol_confined :
    (unterminatedSymbol 0).size = (unterminatedSymbol 1).size ∧
      unterminatedHeader.endOffset ≤ (unterminatedSymbol 0).size ∧
      AgreeOn (unterminatedSymbol 0) (unterminatedSymbol 1) unterminatedHeader.offset
        unterminatedHeader.length.toNat ∧
      (∀ t ∈ tablesAt (unterminatedSymbol 0) unterminatedHeader .symtab,
        AgreeOn (unterminatedSymbol 0) (unterminatedSymbol 1) t.1 t.2) ∧
      readBody {} unterminatedHeader .symtab (unterminatedSymbol 0) unterminatedHeader.offset =
        readBody {} unterminatedHeader .symtab (unterminatedSymbol 1) unterminatedHeader.offset := by
  have hsize : (unterminatedSymbol 0).size = (unterminatedSymbol 1).size := rfl
  have hend : unterminatedHeader.endOffset ≤ (unterminatedSymbol 0).size := by decide
  have hcommand : AgreeOn (unterminatedSymbol 0) (unterminatedSymbol 1) unterminatedHeader.offset
      unterminatedHeader.length.toNat := by decide
  have htables : ∀ t ∈ tablesAt (unterminatedSymbol 0) unterminatedHeader .symtab,
      AgreeOn (unterminatedSymbol 0) (unterminatedSymbol 1) t.1 t.2 := by decide
  have hconfined := readBody_confined {} unterminatedHeader hsize hend hcommand
  exact ⟨hsize, hend, hcommand, htables, hconfined.1 .symtab htables⟩

end Command

end MachImage
