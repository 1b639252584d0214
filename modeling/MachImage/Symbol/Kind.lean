import MachImage.Enumeration
import MachImage.Flags
import MachImage.LibraryOrdinal

/-!
# The type byte and the description of a symbol

The type byte of a symbol table entry is either a debugging kind as a whole,
when any of its top three bits is set, or a symbol kind with two visibility
bits.  The description holds a reference type in its low nibble, flags in the
bits above and a library ordinal in its high byte.
-/

namespace MachImage

/-- Where an ordinary symbol is defined. -/
inductive SymbolKind where
  | undefined | absolute | inSection | prebound | indirect
  deriving DecidableEq, Repr

instance : Coded SymbolKind UInt8 where
  code
    | .undefined => 0x0
    | .absolute => 0x2
    | .inSection => 0xE
    | .prebound => 0xC
    | .indirect => 0xA
  ofCode?
    | 0x0 => some .undefined
    | 0x2 => some .absolute
    | 0xE => some .inSection
    | 0xC => some .prebound
    | 0xA => some .indirect
    | _ => none
  name
    | .undefined => "Undefined"
    | .absolute => "Absolute"
    | .inSection => "Section"
    | .prebound => "Prebound"
    | .indirect => "Indirect"

instance : LawfulCoded SymbolKind where
  ofCode?_code a := by cases a <;> rfl
  code_of_ofCode? h := by
    simp only [Coded.ofCode?] at h
    split at h <;> cases h <;> rfl

/-- The kinds of debugging entry. -/
inductive StabType where
  | gsym | fname | fun | stsym | lcsym | bnsym | opt | rsym | sline | ensym | ssym | so | oso
  | lsym | bincl | sol | params | version | olevel | psym | eincl | entry | lbrac | excl | rbrac
  | bcomm | ecomm | ecoml | leng
  deriving DecidableEq, Repr

instance : Coded StabType UInt8 where
  code
    | .gsym => 0x20
    | .fname => 0x22
    | .fun => 0x24
    | .stsym => 0x26
    | .lcsym => 0x28
    | .bnsym => 0x2E
    | .opt => 0x3C
    | .rsym => 0x40
    | .sline => 0x44
    | .ensym => 0x4E
    | .ssym => 0x60
    | .so => 0x64
    | .oso => 0x66
    | .lsym => 0x80
    | .bincl => 0x82
    | .sol => 0x84
    | .params => 0x86
    | .version => 0x88
    | .olevel => 0x8A
    | .psym => 0xA0
    | .eincl => 0xA2
    | .entry => 0xA4
    | .lbrac => 0xC0
    | .excl => 0xC2
    | .rbrac => 0xE0
    | .bcomm => 0xE2
    | .ecomm => 0xE4
    | .ecoml => 0xE8
    | .leng => 0xFE
  ofCode?
    | 0x20 => some .gsym
    | 0x22 => some .fname
    | 0x24 => some .fun
    | 0x26 => some .stsym
    | 0x28 => some .lcsym
    | 0x2E => some .bnsym
    | 0x3C => some .opt
    | 0x40 => some .rsym
    | 0x44 => some .sline
    | 0x4E => some .ensym
    | 0x60 => some .ssym
    | 0x64 => some .so
    | 0x66 => some .oso
    | 0x80 => some .lsym
    | 0x82 => some .bincl
    | 0x84 => some .sol
    | 0x86 => some .params
    | 0x88 => some .version
    | 0x8A => some .olevel
    | 0xA0 => some .psym
    | 0xA2 => some .eincl
    | 0xA4 => some .entry
    | 0xC0 => some .lbrac
    | 0xC2 => some .excl
    | 0xE0 => some .rbrac
    | 0xE2 => some .bcomm
    | 0xE4 => some .ecomm
    | 0xE8 => some .ecoml
    | 0xFE => some .leng
    | _ => none
  name
    | .gsym => "Gsym"
    | .fname => "Fname"
    | .fun => "Fun"
    | .stsym => "Stsym"
    | .lcsym => "Lcsym"
    | .bnsym => "Bnsym"
    | .opt => "Opt"
    | .rsym => "Rsym"
    | .sline => "Sline"
    | .ensym => "Ensym"
    | .ssym => "Ssym"
    | .so => "So"
    | .oso => "Oso"
    | .lsym => "Lsym"
    | .bincl => "Bincl"
    | .sol => "Sol"
    | .params => "Params"
    | .version => "Version"
    | .olevel => "Olevel"
    | .psym => "Psym"
    | .eincl => "Eincl"
    | .entry => "Entry"
    | .lbrac => "Lbrac"
    | .excl => "Excl"
    | .rbrac => "Rbrac"
    | .bcomm => "Bcomm"
    | .ecomm => "Ecomm"
    | .ecoml => "Ecoml"
    | .leng => "Leng"

instance : LawfulCoded StabType where
  ofCode?_code a := by cases a <;> rfl
  code_of_ofCode? h := by
    simp only [Coded.ofCode?] at h
    split at h <;> cases h <;> rfl

/-- The type byte of a symbol table entry. -/
structure TypeByte where
  /-- The byte itself. -/
  raw : UInt8
  deriving DecidableEq, Repr

namespace TypeByte

/-- A debugging entry has one of the top three bits set. -/
def isStab (t : TypeByte) : Bool := t.raw &&& 0xE0 ≠ 0

/-- The kind of a debugging entry; the whole byte selects it. -/
def stab (t : TypeByte) : Option StabType := if t.isStab then Coded.ofCode? t.raw else none

/-- The kind selected by three bits of a byte. -/
def kindOfBits (b : UInt8) : Option SymbolKind := Coded.ofCode? (b &&& 0x0E)

/-- The kind of an ordinary symbol. -/
def kind (t : TypeByte) : Option SymbolKind := if t.isStab then none else kindOfBits t.raw

/-- A private external symbol is visible within the image only. -/
def isPrivateExternal (t : TypeByte) : Bool := t.raw &&& 0x10 = 0x10

/-- An external symbol is visible to other images. -/
def isExternal (t : TypeByte) : Bool := t.raw &&& 0x01 = 0x01

end TypeByte

/-- How a symbol is referred to. -/
inductive ReferenceType where
  | undefinedNonLazy | undefinedLazy | defined | privateDefined | privateUndefinedNonLazy
  | privateUndefinedLazy
  deriving DecidableEq, Repr

instance : Coded ReferenceType UInt16 where
  code
    | .undefinedNonLazy => 0x0
    | .undefinedLazy => 0x1
    | .defined => 0x2
    | .privateDefined => 0x3
    | .privateUndefinedNonLazy => 0x4
    | .privateUndefinedLazy => 0x5
  ofCode?
    | 0x0 => some .undefinedNonLazy
    | 0x1 => some .undefinedLazy
    | 0x2 => some .defined
    | 0x3 => some .privateDefined
    | 0x4 => some .privateUndefinedNonLazy
    | 0x5 => some .privateUndefinedLazy
    | _ => none
  name
    | .undefinedNonLazy => "UndefinedNonLazy"
    | .undefinedLazy => "UndefinedLazy"
    | .defined => "Defined"
    | .privateDefined => "PrivateDefined"
    | .privateUndefinedNonLazy => "PrivateUndefinedNonLazy"
    | .privateUndefinedLazy => "PrivateUndefinedLazy"

instance : LawfulCoded ReferenceType where
  ofCode?_code a := by cases a <;> rfl
  code_of_ofCode? h := by
    simp only [Coded.ofCode?] at h
    split at h <;> cases h <;> rfl

/-- Properties of a symbol in its description. -/
def descriptionFlags : FlagFamily :=
  [("ARM_THUMB_DEF", 0x0008),
   ("REFERENCED_DYNAMICALLY", 0x0010),
   ("NO_DEAD_STRIP", 0x0020),
   ("WEAK_REF", 0x0040),
   ("WEAK_DEF", 0x0080)]

/-- The flag of a symbol that is a Thumb function. -/
def thumbFlag : UInt32 := 0x0008

/-- The description of a symbol table entry. -/
structure Description where
  /-- The word itself. -/
  raw : UInt16
  deriving DecidableEq, Repr

namespace Description

/-- The reference type in the low nibble. -/
def reference (d : Description) : Option ReferenceType := Coded.ofCode? (d.raw &&& 0x000F)

/-- The flags. -/
def flags (d : Description) : Flags descriptionFlags :=
  Flags.ofBits descriptionFlags d.raw.toUInt32

/-- The library ordinal in the high byte. -/
def library (d : Description) : LibraryOrdinal := LibraryOrdinal.ofByte (d.raw >>> 8).toUInt8

end Description

end MachImage
