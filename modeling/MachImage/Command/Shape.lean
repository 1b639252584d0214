import MachImage.Command.Basic

/-!
# Shapes of load commands

Several kinds of load command share a layout.  The shape of a kind is the
form of its body; some known kinds have none, because they are not decoded.
-/

namespace MachImage

/-- The form of the body of a load command. -/
inductive CommandShape where
  | segment | symtab | dysymtab | dylib | path | uuid | thread | encryption | linkedit
  | versionMin | dyldInfo | main | sourceVersion | buildVersion
  deriving DecidableEq, Repr

/-- The shape of a kind of command, if it is decoded. -/
def CommandId.shape? : CommandId → Option CommandShape
  | .segment => some .segment
  | .symtab => some .symtab
  | .dysymtab => some .dysymtab
  | .loadDylib | .idDylib | .loadWeakDylib | .reexportDylib | .lazyLoadDylib
  | .loadUpwardDylib => some .dylib
  | .loadDylinker | .idDylinker | .dyldEnvironment | .rpath | .subFramework | .subUmbrella
  | .subClient | .subLibrary => some .path
  | .uuid => some .uuid
  | .unixThread => some .thread
  | .encryptionInfo => some .encryption
  | .codeSignature | .segmentSplitInfo | .functionStarts | .dataInCode | .dylibCodeSignDrs
  | .linkerOptimizationHint => some .linkedit
  | .versionMinMacosx | .versionMinIphoneos | .versionMinTvos | .versionMinWatchos =>
    some .versionMin
  | .dyldInfo | .dyldInfoOnly => some .dyldInfo
  | .main => some .main
  | .sourceVersion => some .sourceVersion
  | .buildVersion => some .buildVersion
  | .symseg | .thread | .loadFvmLib | .idFvmLib | .ident | .fvmFile | .prepage
  | .preboundDylib | .routines | .twolevelHints | .prebindCksum | .segment64 | .routines64 => none

/-- The shape of a body. -/
def CommandBody.shape : CommandBody → CommandShape
  | .segment _ => .segment
  | .symtab _ => .symtab
  | .dysymtab _ => .dysymtab
  | .dylib _ => .dylib
  | .path _ => .path
  | .uuid _ => .uuid
  | .thread _ => .thread
  | .encryption _ => .encryption
  | .linkedit _ => .linkedit
  | .versionMin _ => .versionMin
  | .dyldInfo _ => .dyldInfo
  | .main _ => .main
  | .sourceVersion _ => .sourceVersion
  | .buildVersion _ => .buildVersion

/-- Every command that names a library the image depends on has the shape that holds a name. -/
theorem CommandId.shape?_of_loadsLibrary {id : CommandId} (h : id.loadsLibrary = true) :
    id.shape? = some .dylib := by
  cases id <;> first | rfl | cases h

end MachImage
