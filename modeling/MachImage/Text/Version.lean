import MachImage.Text.Hex

/-!
# Versions and identifiers as text

Versions are packed into words: three components of 16, 8 and 8 bits, or five
of 24, 10, 10, 10 and 10 bits.  An identifier is sixteen bytes.
-/

namespace MachImage

/-- The components of a version packed into 32 bits. -/
def packedComponents (v : UInt32) : List Nat :=
  [(v >>> 16).toNat, ((v >>> 8) &&& 0xFF).toNat, (v &&& 0xFF).toNat]

/-- The components of a source version packed into 64 bits. -/
def sourceComponents (v : UInt64) : List Nat :=
  [(v >>> 40).toNat, ((v >>> 30) &&& 0x3FF).toNat, ((v >>> 20) &&& 0x3FF).toNat,
    ((v >>> 10) &&& 0x3FF).toNat, (v &&& 0x3FF).toNat]

/-- A list without the zeros at its end. -/
def dropTrailingZeros : List Nat → List Nat
  | [] => []
  | n :: ns =>
    match n, dropTrailingZeros ns with
    | 0, [] => []
    | n, ns => n :: ns

/-- Components with dots between them. -/
def dotted (components : List Nat) : String := ".".intercalate (components.map toString)

/-- A version of three components. -/
def packedVersionText (v : UInt32) : String := dotted (packedComponents v)

/-- The components of a source version that are shown: the first two, and the others up to the last
that is not zero. -/
def shownSourceComponents (v : UInt64) : List Nat :=
  (sourceComponents v).take 2 ++ dropTrailingZeros ((sourceComponents v).drop 2)

/-- A source version, without the zeros that end it. -/
def sourceVersionText (v : UInt64) : String := dotted (shownSourceComponents v)

/-- The bytes of an identifier in five groups of 4, 2, 2, 2 and 6. -/
def uuidGroups (bs : List UInt8) : List (List UInt8) :=
  [bs.take 4, (bs.drop 4).take 2, (bs.drop 6).take 2, (bs.drop 8).take 2, bs.drop 10]

/-- An identifier in upper-case digits with dashes between its groups. -/
def uuidText (bs : Vector UInt8 16) : String :=
  "-".intercalate
    ((uuidGroups bs.toList).map fun group => String.ofList (group.flatMap Hex.upperByte))

end MachImage
