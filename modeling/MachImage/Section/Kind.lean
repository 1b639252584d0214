import MachImage.Enumeration
import MachImage.Flags

/-!
# What a section declares

The flags word of a section holds its type in the low byte and a set of
attributes in the rest.  Sections of five types are tables whose entries are
named through the indirect symbol table.
-/

namespace MachImage

/-- What a section holds. -/
inductive SectionType where
  | regular | zerofill | cstringLiterals | fourByteLiterals | eightByteLiterals | literalPointers
  | nonLazySymbolPointers | lazySymbolPointers | symbolStubs | modInitFuncPointers
  | modTermFuncPointers | coalesced | gbZerofill | interposing | sixteenByteLiterals | dtraceDof
  | lazyDylibSymbolPointers | threadLocalRegular | threadLocalZerofill | threadLocalVariables
  | threadLocalVariablePointers | threadLocalInitFunctionPointers
  deriving DecidableEq, Repr

instance : Coded SectionType UInt8 where
  code
    | .regular => 0x00
    | .zerofill => 0x01
    | .cstringLiterals => 0x02
    | .fourByteLiterals => 0x03
    | .eightByteLiterals => 0x04
    | .literalPointers => 0x05
    | .nonLazySymbolPointers => 0x06
    | .lazySymbolPointers => 0x07
    | .symbolStubs => 0x08
    | .modInitFuncPointers => 0x09
    | .modTermFuncPointers => 0x0A
    | .coalesced => 0x0B
    | .gbZerofill => 0x0C
    | .interposing => 0x0D
    | .sixteenByteLiterals => 0x0E
    | .dtraceDof => 0x0F
    | .lazyDylibSymbolPointers => 0x10
    | .threadLocalRegular => 0x11
    | .threadLocalZerofill => 0x12
    | .threadLocalVariables => 0x13
    | .threadLocalVariablePointers => 0x14
    | .threadLocalInitFunctionPointers => 0x15
  ofCode?
    | 0x00 => some .regular
    | 0x01 => some .zerofill
    | 0x02 => some .cstringLiterals
    | 0x03 => some .fourByteLiterals
    | 0x04 => some .eightByteLiterals
    | 0x05 => some .literalPointers
    | 0x06 => some .nonLazySymbolPointers
    | 0x07 => some .lazySymbolPointers
    | 0x08 => some .symbolStubs
    | 0x09 => some .modInitFuncPointers
    | 0x0A => some .modTermFuncPointers
    | 0x0B => some .coalesced
    | 0x0C => some .gbZerofill
    | 0x0D => some .interposing
    | 0x0E => some .sixteenByteLiterals
    | 0x0F => some .dtraceDof
    | 0x10 => some .lazyDylibSymbolPointers
    | 0x11 => some .threadLocalRegular
    | 0x12 => some .threadLocalZerofill
    | 0x13 => some .threadLocalVariables
    | 0x14 => some .threadLocalVariablePointers
    | 0x15 => some .threadLocalInitFunctionPointers
    | _ => none
  name
    | .regular => "Regular"
    | .zerofill => "Zerofill"
    | .cstringLiterals => "CstringLiterals"
    | .fourByteLiterals => "FourByteLiterals"
    | .eightByteLiterals => "EightByteLiterals"
    | .literalPointers => "LiteralPointers"
    | .nonLazySymbolPointers => "NonLazySymbolPointers"
    | .lazySymbolPointers => "LazySymbolPointers"
    | .symbolStubs => "SymbolStubs"
    | .modInitFuncPointers => "ModInitFuncPointers"
    | .modTermFuncPointers => "ModTermFuncPointers"
    | .coalesced => "Coalesced"
    | .gbZerofill => "GbZerofill"
    | .interposing => "Interposing"
    | .sixteenByteLiterals => "SixteenByteLiterals"
    | .dtraceDof => "DtraceDof"
    | .lazyDylibSymbolPointers => "LazyDylibSymbolPointers"
    | .threadLocalRegular => "ThreadLocalRegular"
    | .threadLocalZerofill => "ThreadLocalZerofill"
    | .threadLocalVariables => "ThreadLocalVariables"
    | .threadLocalVariablePointers => "ThreadLocalVariablePointers"
    | .threadLocalInitFunctionPointers => "ThreadLocalInitFunctionPointers"

instance : LawfulCoded SectionType where
  ofCode?_code a := by cases a <;> rfl
  code_of_ofCode? h := by
    simp only [Coded.ofCode?] at h
    split at h <;> cases h <;> rfl

/-- The sections whose entries are named through the indirect symbol table. -/
def SectionType.isIndirect : SectionType → Bool
  | .nonLazySymbolPointers | .lazySymbolPointers | .lazyDylibSymbolPointers
  | .threadLocalVariablePointers | .symbolStubs => true
  | _ => false

/-- The type in the low byte of a section's flags. -/
def SectionType.ofFlags? (flags : UInt32) : Option SectionType := Coded.ofCode? flags.toUInt8

/-- Attributes of a section, highest bit first. -/
def sectionAttributes : FlagFamily :=
  [("PURE_INSTRUCTIONS", 0x80000000),
   ("NO_TOC", 0x40000000),
   ("STRIP_STATIC_SYMS", 0x20000000),
   ("NO_DEAD_STRIP", 0x10000000),
   ("LIVE_SUPPORT", 0x08000000),
   ("SELF_MODIFYING_CODE", 0x04000000),
   ("DEBUG", 0x02000000),
   ("SOME_INSTRUCTIONS", 0x00000400),
   ("EXT_RELOC", 0x00000200),
   ("LOC_RELOC", 0x00000100)]

/-- The attributes in the high three bytes of a section's flags. -/
def attributesOfFlags (flags : UInt32) : Flags sectionAttributes :=
  Flags.ofBits sectionAttributes (flags &&& 0xFFFFFF00)

/-- What may be done with the memory of a segment. -/
def protectionFlags : FlagFamily :=
  [("READ", 0x1),
   ("WRITE", 0x2),
   ("EXECUTE", 0x4)]

end MachImage
