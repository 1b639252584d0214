/-!
# Sets of flags

A word of an image may be a set of named bits.  A `FlagFamily` lists the bits
and their names in the order they are shown; `Flags f` is a set of bits of
the family `f`, and `Flags.ofBits` drops every bit the family does not name.
-/

namespace MachImage

/-- The named bits of a word, in the order in which they are shown. -/
abbrev FlagFamily := List (String × UInt32)

namespace FlagFamily

/-- All bits that the family names. -/
def mask (f : FlagFamily) : UInt32 := f.foldr (fun entry bits => entry.2 ||| bits) 0

end FlagFamily

/-- A set of flags of one family. -/
structure Flags (f : FlagFamily) where
  /-- The set, as bits of a word. -/
  bits : UInt32
  deriving DecidableEq, Repr

namespace Flags

variable {f : FlagFamily}

/-- The flags set in a word, without the bits that have no name. -/
def ofBits (f : FlagFamily) (bits : UInt32) : Flags f := ⟨bits &&& f.mask⟩

/-- Whether all bits of `flag` are set. -/
def has (flags : Flags f) (flag : UInt32) : Bool := flags.bits &&& flag = flag

/-- The names of the flags that are set, in the order of the family. -/
def names (flags : Flags f) : List String :=
  (f.filter fun entry => flags.has entry.2).map Prod.fst

instance : Inhabited (Flags f) := ⟨⟨0⟩⟩

end Flags

end MachImage
