import MachImage.Enumeration
import MachImage.Flags

/-!
# What a header declares

The header of an image names the processor it is for, the kind of file it is
and a set of properties of the whole image.
-/

namespace MachImage

/-- The processor family an image is built for.  Only 32-bit ARM is known. -/
inductive CpuType where
  | arm
  deriving DecidableEq, Repr

instance : Coded CpuType UInt32 where
  code
    | .arm => 12
  ofCode?
    | 12 => some .arm
    | _ => none
  name
    | .arm => "Arm"

instance : LawfulCoded CpuType where
  ofCode?_code a := by
    cases a
    rfl
  code_of_ofCode? h := by
    simp only [Coded.ofCode?] at h
    split at h
    · cases h
      rfl
    · cases h

/-- The architecture a processor family belongs to. -/
def CpuType.architecture : CpuType → String
  | .arm => "arm"

/-- The processor an image is built for, within the ARM family. -/
inductive CpuSubtype where
  | armAll | armV4T | armV6 | armV5Tej | armXscale | armV7 | armV7F | armV7S | armV7K | armV8
  | armV6M | armV7M | armV7Em
  deriving DecidableEq, Repr

instance : Coded CpuSubtype UInt32 where
  code
    | .armAll => 0
    | .armV4T => 5
    | .armV6 => 6
    | .armV5Tej => 7
    | .armXscale => 8
    | .armV7 => 9
    | .armV7F => 10
    | .armV7S => 11
    | .armV7K => 12
    | .armV8 => 13
    | .armV6M => 14
    | .armV7M => 15
    | .armV7Em => 16
  ofCode?
    | 0 => some .armAll
    | 5 => some .armV4T
    | 6 => some .armV6
    | 7 => some .armV5Tej
    | 8 => some .armXscale
    | 9 => some .armV7
    | 10 => some .armV7F
    | 11 => some .armV7S
    | 12 => some .armV7K
    | 13 => some .armV8
    | 14 => some .armV6M
    | 15 => some .armV7M
    | 16 => some .armV7Em
    | _ => none
  name
    | .armAll => "ArmAll"
    | .armV4T => "ArmV4T"
    | .armV6 => "ArmV6"
    | .armV5Tej => "ArmV5Tej"
    | .armXscale => "ArmXscale"
    | .armV7 => "ArmV7"
    | .armV7F => "ArmV7F"
    | .armV7S => "ArmV7S"
    | .armV7K => "ArmV7K"
    | .armV8 => "ArmV8"
    | .armV6M => "ArmV6M"
    | .armV7M => "ArmV7M"
    | .armV7Em => "ArmV7Em"

instance : LawfulCoded CpuSubtype where
  ofCode?_code a := by cases a <;> rfl
  code_of_ofCode? h := by
    simp only [Coded.ofCode?] at h
    split at h <;> cases h <;> rfl

/-- The conventional name of the architecture a processor implements. -/
def CpuSubtype.architecture : CpuSubtype → String
  | .armAll => "arm"
  | .armV4T => "armv4t"
  | .armV6 => "armv6"
  | .armV5Tej => "armv5"
  | .armXscale => "xscale"
  | .armV7 => "armv7"
  | .armV7F => "armv7f"
  | .armV7S => "armv7s"
  | .armV7K => "armv7k"
  | .armV8 => "armv8"
  | .armV6M => "armv6m"
  | .armV7M => "armv7m"
  | .armV7Em => "armv7em"

/-- The purpose of an image as a file. -/
inductive FileType where
  | object | execute | fvmLib | core | preload | dylib | dylinker | bundle | dylibStub | dsym
  | kextBundle
  deriving DecidableEq, Repr

instance : Coded FileType UInt32 where
  code
    | .object => 0x1
    | .execute => 0x2
    | .fvmLib => 0x3
    | .core => 0x4
    | .preload => 0x5
    | .dylib => 0x6
    | .dylinker => 0x7
    | .bundle => 0x8
    | .dylibStub => 0x9
    | .dsym => 0xA
    | .kextBundle => 0xB
  ofCode?
    | 0x1 => some .object
    | 0x2 => some .execute
    | 0x3 => some .fvmLib
    | 0x4 => some .core
    | 0x5 => some .preload
    | 0x6 => some .dylib
    | 0x7 => some .dylinker
    | 0x8 => some .bundle
    | 0x9 => some .dylibStub
    | 0xA => some .dsym
    | 0xB => some .kextBundle
    | _ => none
  name
    | .object => "Object"
    | .execute => "Execute"
    | .fvmLib => "FvmLib"
    | .core => "Core"
    | .preload => "Preload"
    | .dylib => "Dylib"
    | .dylinker => "Dylinker"
    | .bundle => "Bundle"
    | .dylibStub => "DylibStub"
    | .dsym => "Dsym"
    | .kextBundle => "KextBundle"

instance : LawfulCoded FileType where
  ofCode?_code a := by cases a <;> rfl
  code_of_ofCode? h := by
    simp only [Coded.ofCode?] at h
    split at h <;> cases h <;> rfl

/-- Properties of an image as a whole, lowest bit first. -/
def headerFlags : FlagFamily :=
  [("NOUNDEFS", 0x1),
   ("INCRLINK", 0x2),
   ("DYLDLINK", 0x4),
   ("BINDATLOAD", 0x8),
   ("PREBOUND", 0x10),
   ("SPLIT_SEGS", 0x20),
   ("LAZY_INIT", 0x40),
   ("TWOLEVEL", 0x80),
   ("FORCE_FLAT", 0x100),
   ("NOMULTIDEFS", 0x200),
   ("NOFIXPREBINDING", 0x400),
   ("PREBINDABLE", 0x800),
   ("ALLMODSBOUND", 0x1000),
   ("SUBSECTIONS_VIA_SYMBOLS", 0x2000),
   ("CANONICAL", 0x4000),
   ("WEAK_DEFINES", 0x8000),
   ("BINDS_TO_WEAK", 0x10000),
   ("ALLOW_STACK_EXECUTION", 0x20000),
   ("ROOT_SAFE", 0x40000),
   ("SETUID_SAFE", 0x80000),
   ("NO_REEXPORTED_DYLIBS", 0x100000),
   ("PIE", 0x200000),
   ("DEAD_STRIPPABLE_DYLIB", 0x400000),
   ("HAS_TLV_DESCRIPTORS", 0x800000),
   ("NO_HEAP_EXECUTION", 0x1000000)]

/-- The flag of an image that binds each symbol to a named library. -/
def twoLevelFlag : UInt32 := 0x80

end MachImage
