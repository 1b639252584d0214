import MachImage.Enumeration

/-!
# Identifiers of load commands

Every load command starts with a word that says what it is.  An identifier
with the top bit set must be understood by whoever loads the image.
-/

namespace MachImage

/-- The known kinds of load command. -/
inductive CommandId where
  | segment | symtab | symseg | thread | unixThread | loadFvmLib | idFvmLib | ident | fvmFile
  | prepage | dysymtab | loadDylib | idDylib | loadDylinker | idDylinker | preboundDylib
  | routines | subFramework | subUmbrella | subClient | subLibrary | twolevelHints | prebindCksum
  | loadWeakDylib | segment64 | routines64 | uuid | rpath | codeSignature | segmentSplitInfo
  | reexportDylib | lazyLoadDylib | encryptionInfo | dyldInfo | dyldInfoOnly | loadUpwardDylib
  | versionMinMacosx | versionMinIphoneos | functionStarts | dyldEnvironment | main | dataInCode
  | sourceVersion | dylibCodeSignDrs | linkerOptimizationHint | versionMinTvos
  | versionMinWatchos | buildVersion
  deriving DecidableEq, Repr

instance : Coded CommandId UInt32 where
  code
    | .segment => 0x1
    | .symtab => 0x2
    | .symseg => 0x3
    | .thread => 0x4
    | .unixThread => 0x5
    | .loadFvmLib => 0x6
    | .idFvmLib => 0x7
    | .ident => 0x8
    | .fvmFile => 0x9
    | .prepage => 0xA
    | .dysymtab => 0xB
    | .loadDylib => 0xC
    | .idDylib => 0xD
    | .loadDylinker => 0xE
    | .idDylinker => 0xF
    | .preboundDylib => 0x10
    | .routines => 0x11
    | .subFramework => 0x12
    | .subUmbrella => 0x13
    | .subClient => 0x14
    | .subLibrary => 0x15
    | .twolevelHints => 0x16
    | .prebindCksum => 0x17
    | .loadWeakDylib => 0x80000018
    | .segment64 => 0x19
    | .routines64 => 0x1A
    | .uuid => 0x1B
    | .rpath => 0x8000001C
    | .codeSignature => 0x1D
    | .segmentSplitInfo => 0x1E
    | .reexportDylib => 0x8000001F
    | .lazyLoadDylib => 0x20
    | .encryptionInfo => 0x21
    | .dyldInfo => 0x22
    | .dyldInfoOnly => 0x80000022
    | .loadUpwardDylib => 0x80000023
    | .versionMinMacosx => 0x24
    | .versionMinIphoneos => 0x25
    | .functionStarts => 0x26
    | .dyldEnvironment => 0x27
    | .main => 0x80000028
    | .dataInCode => 0x29
    | .sourceVersion => 0x2A
    | .dylibCodeSignDrs => 0x2B
    | .linkerOptimizationHint => 0x2E
    | .versionMinTvos => 0x2F
    | .versionMinWatchos => 0x30
    | .buildVersion => 0x32
  ofCode?
    | 0x1 => some .segment
    | 0x2 => some .symtab
    | 0x3 => some .symseg
    | 0x4 => some .thread
    | 0x5 => some .unixThread
    | 0x6 => some .loadFvmLib
    | 0x7 => some .idFvmLib
    | 0x8 => some .ident
    | 0x9 => some .fvmFile
    | 0xA => some .prepage
    | 0xB => some .dysymtab
    | 0xC => some .loadDylib
    | 0xD => some .idDylib
    | 0xE => some .loadDylinker
    | 0xF => some .idDylinker
    | 0x10 => some .preboundDylib
    | 0x11 => some .routines
    | 0x12 => some .subFramework
    | 0x13 => some .subUmbrella
    | 0x14 => some .subClient
    | 0x15 => some .subLibrary
    | 0x16 => some .twolevelHints
    | 0x17 => some .prebindCksum
    | 0x80000018 => some .loadWeakDylib
    | 0x19 => some .segment64
    | 0x1A => some .routines64
    | 0x1B => some .uuid
    | 0x8000001C => some .rpath
    | 0x1D => some .codeSignature
    | 0x1E => some .segmentSplitInfo
    | 0x8000001F => some .reexportDylib
    | 0x20 => some .lazyLoadDylib
    | 0x21 => some .encryptionInfo
    | 0x22 => some .dyldInfo
    | 0x80000022 => some .dyldInfoOnly
    | 0x80000023 => some .loadUpwardDylib
    | 0x24 => some .versionMinMacosx
    | 0x25 => some .versionMinIphoneos
    | 0x26 => some .functionStarts
    | 0x27 => some .dyldEnvironment
    | 0x80000028 => some .main
    | 0x29 => some .dataInCode
    | 0x2A => some .sourceVersion
    | 0x2B => some .dylibCodeSignDrs
    | 0x2E => some .linkerOptimizationHint
    | 0x2F => some .versionMinTvos
    | 0x30 => some .versionMinWatchos
    | 0x32 => some .buildVersion
    | _ => none
  name
    | .segment => "Segment"
    | .symtab => "Symtab"
    | .symseg => "Symseg"
    | .thread => "Thread"
    | .unixThread => "UnixThread"
    | .loadFvmLib => "LoadFvmLib"
    | .idFvmLib => "IdFvmLib"
    | .ident => "Ident"
    | .fvmFile => "FvmFile"
    | .prepage => "Prepage"
    | .dysymtab => "Dysymtab"
    | .loadDylib => "LoadDylib"
    | .idDylib => "IdDylib"
    | .loadDylinker => "LoadDylinker"
    | .idDylinker => "IdDylinker"
    | .preboundDylib => "PreboundDylib"
    | .routines => "Routines"
    | .subFramework => "SubFramework"
    | .subUmbrella => "SubUmbrella"
    | .subClient => "SubClient"
    | .subLibrary => "SubLibrary"
    | .twolevelHints => "TwolevelHints"
    | .prebindCksum => "PrebindCksum"
    | .loadWeakDylib => "LoadWeakDylib"
    | .segment64 => "Segment64"
    | .routines64 => "Routines64"
    | .uuid => "Uuid"
    | .rpath => "Rpath"
    | .codeSignature => "CodeSignature"
    | .segmentSplitInfo => "SegmentSplitInfo"
    | .reexportDylib => "ReexportDylib"
    | .lazyLoadDylib => "LazyLoadDylib"
    | .encryptionInfo => "EncryptionInfo"
    | .dyldInfo => "DyldInfo"
    | .dyldInfoOnly => "DyldInfoOnly"
    | .loadUpwardDylib => "LoadUpwardDylib"
    | .versionMinMacosx => "VersionMinMacosx"
    | .versionMinIphoneos => "VersionMinIphoneos"
    | .functionStarts => "FunctionStarts"
    | .dyldEnvironment => "DyldEnvironment"
    | .main => "Main"
    | .dataInCode => "DataInCode"
    | .sourceVersion => "SourceVersion"
    | .dylibCodeSignDrs => "DylibCodeSignDrs"
    | .linkerOptimizationHint => "LinkerOptimizationHint"
    | .versionMinTvos => "VersionMinTvos"
    | .versionMinWatchos => "VersionMinWatchos"
    | .buildVersion => "BuildVersion"

instance : LawfulCoded CommandId where
  ofCode?_code a := by cases a <;> rfl
  code_of_ofCode? h := by
    simp only [Coded.ofCode?] at h
    split at h <;> cases h <;> rfl

/-- The commands that name a library the image depends on.  The command that names the image
itself as a library is not one of them. -/
def CommandId.loadsLibrary : CommandId → Bool
  | .loadDylib | .loadWeakDylib | .reexportDylib | .lazyLoadDylib | .loadUpwardDylib => true
  | _ => false

end MachImage
