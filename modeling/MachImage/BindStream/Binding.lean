import MachImage.BindStream.Opcode
import MachImage.LibraryOrdinal
import MachImage.Text.Hex

/-!
# Bindings

A binding tells the loader to store the address of a symbol at a place in a
segment.
-/

namespace MachImage.BindStream

/-- One place to be filled with the address of a symbol. -/
structure Binding where
  /-- Where the symbol is looked up, if that was ever said. -/
  library : Option LibraryOrdinal := none
  symbol : String := ""
  flags : Flags symbolFlags := ⟨0⟩
  /-- What is stored, if that was ever said. -/
  type : Option BindType := none
  /-- The place of the segment among the segments of the image. -/
  segment : UInt8 := 0
  /-- The place within the segment. -/
  offset : UInt32 := 0
  /-- What is added to the address of the symbol. -/
  addend : Int64 := 0
  deriving DecidableEq, Repr

instance : Inhabited Binding := ⟨{}⟩

/-- A binding in one line. -/
def Binding.text (b : Binding) : String :=
  "seg" ++ toString b.segment.toNat ++ "+" ++ Hex.numeral b.offset.toNat ++ " " ++ b.symbol ++
    (match b.library with
      | some library => " (" ++ library.text ++ ")"
      | none => "") ++
    (if b.addend = 0 then "" else " + " ++ toString b.addend.toInt)

end MachImage.BindStream
