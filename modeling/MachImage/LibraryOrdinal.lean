/-!
# Library ordinals

Under two-level binding a symbol says in which library it is to be found: by
the position of the library among those the image loads, counted from one, or
by one of a few special numbers.  Symbol tables store the ordinal in a byte
(`LibraryOrdinal.ofByte`), bind streams as a signed number
(`LibraryOrdinal.ofSigned?`).
-/

namespace MachImage

/-- Where a symbol is to be looked up. -/
inductive LibraryOrdinal where
  /-- In the image itself. -/
  | selfImage
  /-- In every loaded image. -/
  | dynamicLookup
  /-- In the main executable. -/
  | executable
  /-- Among weak definitions; only bind streams use it. -/
  | weakLookup
  /-- In a loaded library, counted from one. -/
  | index (n : UInt32)
  deriving DecidableEq, Repr

namespace LibraryOrdinal

/-- The ordinal stored in a byte of a symbol's description. -/
def ofByte (b : UInt8) : LibraryOrdinal :=
  if b = 0x00 then .selfImage
  else if b = 0xFE then .dynamicLookup
  else if b = 0xFF then .executable
  else .index b.toUInt32

/-- The ordinal a bind stream gives as a signed number: zero and three negative numbers are special,
the positive numbers of 32 bits are positions, and no other number has a meaning. -/
def ofSigned? (i : Int) : Option LibraryOrdinal :=
  if i = 0 then some .selfImage
  else if i = -1 then some .executable
  else if i = -2 then some .dynamicLookup
  else if i = -3 then some .weakLookup
  else if 0 < i ∧ i < UInt32.size then some (.index (UInt32.ofNat i.toNat))
  else none

/-- The position among the loaded libraries, for an ordinal that is one. -/
def position? : LibraryOrdinal → Option UInt32
  | .index n => some n
  | _ => none

/-- How an ordinal is shown. -/
def text : LibraryOrdinal → String
  | .selfImage => "SelfImage"
  | .dynamicLookup => "DynamicLookup"
  | .executable => "Executable"
  | .weakLookup => "WeakLookup"
  | .index n => "Index(" ++ toString n.toNat ++ ")"

end LibraryOrdinal

end MachImage
