import MachImage.Record
import MachImage.Symbol.Kind

/-!
# Symbols

A symbol table is an array of entries, each of which refers to its name by an
offset into a table of names.  An entry as it is stored is a `SymbolEntry`;
once the sections and the libraries of the image are known it becomes a
`Symbol`.
-/

namespace MachImage

/-- An entry of a symbol table with its name. -/
structure SymbolEntry where
  name : String
  type : TypeByte
  /-- The number of a section, counted from one, or zero. -/
  sectionNumber : UInt8
  description : Description
  /-- An address or an offset, depending on the type. -/
  value : UInt32
  deriving DecidableEq, Repr

/-- A symbol of an image. -/
structure Symbol where
  name : String
  type : TypeByte
  sectionNumber : UInt8
  description : Description
  value : UInt32
  /-- The section the symbol is defined in, counted from one over the whole image. -/
  definedIn : Option Nat
  /-- The library the symbol is looked up in. -/
  library : Option String
  deriving DecidableEq, Repr

namespace SymbolEntry

/-- Debugging entries are not symbols of the program. -/
def isStab (e : SymbolEntry) : Bool := e.type.isStab

/-- The section an entry refers to.  Debugging entries use the number for other purposes. -/
def section? (e : SymbolEntry) : Option UInt8 :=
  if e.isStab || e.sectionNumber = 0 then none else some e.sectionNumber

/-- The symbol of an entry, with what it refers to. -/
def toSymbol (e : SymbolEntry) (definedIn : Option Nat) (library : Option String) : Symbol :=
  { name := e.name, type := e.type, sectionNumber := e.sectionNumber,
    description := e.description, value := e.value, definedIn, library }

/-- The name at an offset of a table of names: up to the first zero byte or the end of the table. -/
def nameAt (names : ByteArray) (offset : Nat) : String :=
  Utf8.decodeLossy (bytesUntilZero names offset (names.size - offset))

/-- The name an entry refers to, with a note if it lies beyond the table.  Offset zero stands for no
name, and so does one beyond the table. -/
def readName (names : ByteArray) (start offset : Nat) : Reader String :=
  if offset = 0 then pure ""
  else if offset ≤ names.size then pure (nameAt names offset)
  else do
    Reader.note (.nameBeyondTable start offset names.size)
    pure ""

/-- The entry at the cursor, with its name from a table of names. -/
def read (names : ByteArray) : Reader SymbolEntry := do
  let start ← Reader.position
  let (nameOffset, type, sectionNumber, description, value, _) ← Reader.record .symbol
  let name ← readName names start nameOffset.toNat
  return { name, type := ⟨type⟩, sectionNumber, description := ⟨description⟩, value }

end SymbolEntry

namespace Symbol

/-- Debugging entries are not symbols of the program. -/
def isStab (s : Symbol) : Bool := s.type.isStab

/-- The kind of an ordinary symbol. -/
def kind (s : Symbol) : Option SymbolKind := s.type.kind

/-- An external symbol is visible to other images. -/
def isExternal (s : Symbol) : Bool := s.type.isExternal

/-- An undefined symbol has to be found in another image. -/
def isUndefined (s : Symbol) : Bool := s.kind = some .undefined

/-- Whether the symbol is a Thumb function. -/
def isThumb (s : Symbol) : Bool := s.description.flags.has thumbFlag

/-- A symbol is exposed under its name if it has one and is not a debugging entry. -/
def isExposed (s : Symbol) : Bool := !s.isStab && s.name ≠ ""

/-- A symbol in one line. -/
def text (s : Symbol) : String :=
  Hex.padded 8 s.value.toNat ++ " " ++ s.name ++
    (match s.kind with
      | some kind => " " ++ Coded.name kind
      | none => "") ++
    (match s.definedIn with
      | some number => " sect " ++ toString number
      | none => "") ++
    (match s.library with
      | some library => " (" ++ library ++ ")"
      | none => "")

end Symbol

end MachImage
