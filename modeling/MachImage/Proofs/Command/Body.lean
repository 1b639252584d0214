import MachImage.Command.Read
import MachImage.Proofs.Reader
import MachImage.Proofs.Record

/-!
# What a command holds

For each shape of load command this file says where in the image the parts of
its body lie (`Command.bodyAt`) and what must hold for it to be decoded
(`CommandShape.Fits`): the declared length covers the record and what follows
it, and the tables elsewhere lie inside the image.  Neither mentions a reader
or a cursor.
-/

namespace MachImage

/-! ## Bodies by position -/

/-- The name at an offset of a table of names, or no name for offset zero and beyond the table. -/
def SymbolEntry.nameOrNone (names : ByteArray) (offset : Nat) : String :=
  if offset = 0 then "" else if offset ≤ names.size then nameAt names offset else ""

/-- The entry of a symbol table at a position, with its name from a table of names. -/
def SymbolEntry.entryAt (image names : ByteArray) (pos : Nat) : SymbolEntry where
  name := nameOrNone names (word image pos).toNat
  type := ⟨byteAt image (pos + 4)⟩
  sectionNumber := byteAt image (pos + 5)
  description := ⟨halfWord image (pos + 6)⟩
  value := word image (pos + 8)

namespace Command

/-- The section at a position. -/
def sectionAt (image : ByteArray) (pos : Nat) : SectionHeader where
  name := Name.ofField ((FieldType.bytes 16).readAt image pos).toList
  segmentName := Name.ofField ((FieldType.bytes 16).readAt image (pos + 16)).toList
  address := word image (pos + 32)
  size := word image (pos + 36)
  fileOffset := word image (pos + 40)
  align := word image (pos + 44)
  relocationOffset := word image (pos + 48)
  relocationCount := word image (pos + 52)
  flags := word image (pos + 56)
  reserved1 := word image (pos + 60)
  reserved2 := word image (pos + 64)

/-- The segment at a position, with the sections that follow its record. -/
def segmentAt (image : ByteArray) (pos : Nat) : SegmentCommand where
  name := Name.ofField ((FieldType.bytes 16).readAt image (pos + 8)).toList
  address := word image (pos + 24)
  size := word image (pos + 28)
  fileOffset := word image (pos + 32)
  fileSize := word image (pos + 36)
  greatestProtection := Flags.ofBits protectionFlags (word image (pos + 40))
  initialProtection := Flags.ofBits protectionFlags (word image (pos + 44))
  sectionCount := word image (pos + 48)
  flags := word image (pos + 52)
  sections :=
    (List.range (word image (pos + 48)).toNat).map fun k => sectionAt image (pos + 56 + 68 * k)

/-- The symbol table of the command at a position, with the entries from elsewhere. -/
def symtabAt (image : ByteArray) (pos : Nat) : SymtabCommand where
  symbolOffset := word image (pos + 8)
  symbolCount := word image (pos + 12)
  nameOffset := word image (pos + 16)
  nameSize := word image (pos + 20)
  entries :=
    let start := (word image (pos + 16)).toNat
    let names := image.extract start (start + (word image (pos + 20)).toNat)
    (List.range (word image (pos + 12)).toNat).map fun k =>
      SymbolEntry.entryAt image names ((word image (pos + 8)).toNat + 12 * k)

/-- The numbers of an indirect symbol table. -/
def indirectAt (image : ByteArray) (offset count : UInt32) : List UInt32 :=
  if count = 0 then [] else LittleEndian.words (window image offset.toNat (4 * count.toNat))

/-- The parts of the symbol table that the command at a position declares. -/
def dysymtabAt (image : ByteArray) (pos : Nat) : DysymtabCommand where
  localStart := word image (pos + 8)
  localCount := word image (pos + 12)
  definedStart := word image (pos + 16)
  definedCount := word image (pos + 20)
  undefinedStart := word image (pos + 24)
  undefinedCount := word image (pos + 28)
  contentsOffset := word image (pos + 32)
  contentsCount := word image (pos + 36)
  moduleOffset := word image (pos + 40)
  moduleCount := word image (pos + 44)
  referenceOffset := word image (pos + 48)
  referenceCount := word image (pos + 52)
  indirectOffset := word image (pos + 56)
  indirectCount := word image (pos + 60)
  externalRelocationOffset := word image (pos + 64)
  externalRelocationCount := word image (pos + 68)
  localRelocationOffset := word image (pos + 72)
  localRelocationCount := word image (pos + 76)
  indirectSymbols := indirectAt image (word image (pos + 56)) (word image (pos + 60))

/-- The name in a command from an offset on. -/
def nameAt (image : ByteArray) (h : CommandHeader) (nameOffset : UInt32) : String :=
  Name.ofField (window image (h.offset + nameOffset.toNat) (h.length - nameOffset).toNat)

/-- The library that a command names. -/
def dylibAt (image : ByteArray) (h : CommandHeader) : DylibCommand where
  name := nameAt image h (word image (h.offset + 8))
  timestamp := word image (h.offset + 12)
  currentVersion := word image (h.offset + 16)
  compatibilityVersion := word image (h.offset + 20)

/-- The registers at a position. -/
def registersAt (image : ByteArray) (pos : Nat) : ArmRegisters where
  r := (FieldType.words 13).readAt image pos
  sp := word image (pos + 52)
  lr := word image (pos + 56)
  pc := word image (pos + 60)
  cpsr := word image (pos + 64)

/-- The bindings of a stream, if it is read and not empty. -/
def bindingsAt (options : Options) (image : ByteArray) (offset size : UInt32) :
    Option (List BindStream.Binding) :=
  if size = 0 || !options.bindInfo then none
  else (BindStream.parse (window image offset.toNat size.toNat)).toOption

/-- The tables of the loader that the command at a position declares. -/
def dyldInfoAt (options : Options) (image : ByteArray) (pos : Nat) : DyldInfoCommand where
  rebaseOffset := word image (pos + 8)
  rebaseSize := word image (pos + 12)
  bindOffset := word image (pos + 16)
  bindSize := word image (pos + 20)
  weakBindOffset := word image (pos + 24)
  weakBindSize := word image (pos + 28)
  lazyBindOffset := word image (pos + 32)
  lazyBindSize := word image (pos + 36)
  exportOffset := word image (pos + 40)
  exportSize := word image (pos + 44)
  bindings := bindingsAt options image (word image (pos + 16)) (word image (pos + 20))
  weakBindings := bindingsAt options image (word image (pos + 24)) (word image (pos + 28))
  lazyBindings := bindingsAt options image (word image (pos + 32)) (word image (pos + 36))

/-- The tool at a position. -/
def toolAt (image : ByteArray) (pos : Nat) : BuildTool where
  tool := word image pos
  version := word image (pos + 4)

/-- The platform that the command at a position names, with the tools that follow its record. -/
def buildVersionAt (image : ByteArray) (pos : Nat) : BuildVersionCommand where
  platform := word image (pos + 8)
  leastVersion := word image (pos + 12)
  kit := word image (pos + 16)
  tools :=
    (List.range (word image (pos + 20)).toNat).map fun k => toolAt image (pos + 24 + 8 * k)

theorem sections_segmentAt (image : ByteArray) (pos : Nat) :
    (segmentAt image pos).sections =
      (List.range (word image (pos + 48)).toNat).map
        fun k => sectionAt image (pos + 56 + 68 * k) := by
  rw [segmentAt]

theorem tools_buildVersionAt (image : ByteArray) (pos : Nat) :
    (buildVersionAt image pos).tools =
      (List.range (word image (pos + 20)).toNat).map fun k => toolAt image (pos + 24 + 8 * k) := by
  rw [buildVersionAt]

/-- The body of a command of a given shape. -/
def bodyAt (options : Options) (image : ByteArray) (h : CommandHeader) :
    CommandShape → CommandBody
  | .segment => .segment (segmentAt image h.offset)
  | .symtab => .symtab (symtabAt image h.offset)
  | .dysymtab => .dysymtab (dysymtabAt image h.offset)
  | .dylib => .dylib (dylibAt image h)
  | .path => .path (nameAt image h (word image (h.offset + 8)))
  | .uuid => .uuid ((FieldType.bytes 16).readAt image (h.offset + 8))
  | .thread =>
    .thread {
      flavor := word image (h.offset + 8), wordCount := word image (h.offset + 12),
      registers := registersAt image (h.offset + 16) }
  | .encryption =>
    .encryption {
      fileOffset := word image (h.offset + 8), size := word image (h.offset + 12),
      scheme := word image (h.offset + 16) }
  | .linkedit =>
    .linkedit { fileOffset := word image (h.offset + 8), size := word image (h.offset + 12) }
  | .versionMin =>
    .versionMin { version := word image (h.offset + 8), kit := word image (h.offset + 12) }
  | .dyldInfo => .dyldInfo (dyldInfoAt options image h.offset)
  | .main =>
    .main {
      entryOffset := longWord image (h.offset + 8), stackSize := longWord image (h.offset + 16) }
  | .sourceVersion => .sourceVersion (longWord image (h.offset + 8))
  | .buildVersion => .buildVersion (buildVersionAt image h.offset)

/-- A body has the shape it was read by. -/
@[simp] theorem shape_bodyAt (options : Options) (image : ByteArray) (h : CommandHeader)
    (shape : CommandShape) : (bodyAt options image h shape).shape = shape := by
  cases shape <;> rfl

/-- The body of a segment command is the segment at its position. -/
theorem eq_segmentAt_of_bodyAt {options : Options} {image : ByteArray} {h : CommandHeader}
    {shape : CommandShape} {s : SegmentCommand} (hs : bodyAt options image h shape = .segment s) :
    shape = .segment ∧ s = segmentAt image h.offset := by
  have hshape := congrArg CommandBody.shape hs
  rw [shape_bodyAt] at hshape
  subst hshape
  exact ⟨rfl, (CommandBody.segment.inj hs).symm⟩

end Command

/-! ## When a command fits -/

/-- A stream of bindings that is to be read lies inside the image and is accepted. -/
def StreamFits (options : Options) (image : ByteArray) (offset size : UInt32) : Prop :=
  options.bindInfo = true → size ≠ 0 →
    offset.toNat + size.toNat ≤ image.size ∧
      ∃ bindings, BindStream.parse (window image offset.toNat size.toNat) = .ok bindings

/-- What must hold of a command of a shape, which starts at `pos` and says that it takes `len`
bytes, for it to be decoded. -/
def CommandShape.Fits (options : Options) (image : ByteArray) (pos len : Nat) :
    CommandShape → Prop
  | .segment => 56 + 68 * (word image (pos + 48)).toNat ≤ len
  | .symtab =>
    24 ≤ len ∧
      (word image (pos + 16)).toNat + (word image (pos + 20)).toNat ≤ image.size ∧
      (word image (pos + 8)).toNat + 12 * (word image (pos + 12)).toNat ≤ image.size
  | .dysymtab =>
    80 ≤ len ∧
      (word image (pos + 60) = 0 ∨
        (word image (pos + 56)).toNat + 4 * (word image (pos + 60)).toNat ≤ image.size)
  | .dylib => 24 ≤ len ∧ (word image (pos + 8)).toNat ≤ len
  | .path => 12 ≤ len ∧ (word image (pos + 8)).toNat ≤ len
  | .uuid => 24 ≤ len
  | .thread => 84 ≤ len
  | .encryption => 20 ≤ len
  | .linkedit => 16 ≤ len
  | .versionMin => 16 ≤ len
  | .dyldInfo =>
    48 ≤ len ∧ StreamFits options image (word image (pos + 16)) (word image (pos + 20)) ∧
      StreamFits options image (word image (pos + 24)) (word image (pos + 28)) ∧
      StreamFits options image (word image (pos + 32)) (word image (pos + 36))
  | .main => 24 ≤ len
  | .sourceVersion => 16 ≤ len
  | .buildVersion => 24 + 8 * (word image (pos + 20)).toNat ≤ len

end MachImage
