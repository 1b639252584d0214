import MachImage.Proofs.Command.Decode
import MachImage.Proofs.Reader.Failures
import MachImage.Proofs.Utf8

/-!
# Names read back

Names are read in four places: from a field of fixed width, up to a zero byte
that has to come, from among the names of a symbol table, and from inside a
command.  They differ in where the bytes of a name may end at the latest, and in
nothing else:

* Whatever bytes there are, the name that is read is the text of those before the
  first zero byte (`Name.Read.eq_ofField`).  So it has no zero character, and two
  places with the same bytes up to there give the same name.
* A text without the zero character is read back from its UTF-8 bytes at each of
  the places, if a zero byte follows them or, where none has to, the end
  (`Name.ReadBack`).

`Name.readers_agree` states both.
-/

namespace MachImage

/-! ## Bytes that hold a name -/

namespace Name

/-- Bytes hold a stored name if they begin with it, and behind it there is a zero byte or nothing. -/
def Holds (bs stored : List UInt8) : Prop :=
  ∃ tail, bs = stored ++ tail ∧ ∀ b ∈ tail.head?, b = 0

/-- A stored name that has no zero byte itself is what comes before the first zero byte. -/
theorem beforeZero_of_holds {bs stored : List UInt8} (hzero : (0 : UInt8) ∉ stored)
    (h : Holds bs stored) : beforeZero bs = stored := by
  obtain ⟨tail, rfl, htail⟩ := h
  cases tail with
  | nil => rw [List.append_nil, beforeZero_eq_self hzero]
  | cons b rest =>
    rw [htail b rfl]
    exact beforeZero_append_zero hzero rest

/-- A name padded with zeros is held. -/
theorem holds_append_replicate (stored : List UInt8) (k : Nat) :
    Holds (stored ++ List.replicate k 0) stored := by
  refine ⟨_, rfl, fun b hb => ?_⟩
  exact List.eq_of_mem_replicate (List.mem_of_mem_head? hb)

/-- The text of the bytes that hold a name is the name. -/
theorem ofField_of_holds {bs : List UInt8} {s : String} (hs : '\x00' ∉ s.toList)
    (h : Holds bs s.toUTF8.data.toList) : ofField bs = s := by
  rw [ofField, beforeZero_of_holds (Utf8.zero_notMem_toUTF8 hs) h, Utf8.decodeLossy_toUTF8]

end Name

/-! ## Names of symbols -/

/-- The bytes at an offset of a table of names, up to the end of the table.  Offset zero stands for
no name. -/
def SymbolEntry.nameBytes (names : ByteArray) (offset : Nat) : List UInt8 :=
  if offset = 0 then [] else windowFrom names offset

theorem SymbolEntry.nameOrNone_eq_ofField (names : ByteArray) (offset : Nat) :
    nameOrNone names offset = Name.ofField (nameBytes names offset) := by
  unfold nameOrNone nameBytes
  split_ifs with hzero hle
  · rfl
  · rw [nameAt, bytesUntilZero_eq]
    rfl
  · -- behind the end of the table there are no bytes
    have hnone : windowFrom names offset = [] := by
      apply List.eq_nil_of_length_eq_zero
      rw [length_windowFrom]
      omega
    rw [hnone]
    rfl

theorem SymbolEntry.name_entryAt (image names : ByteArray) (pos : Nat) :
    (entryAt image names pos).name = Name.ofField (nameBytes names (word image pos).toNat) := by
  rw [entryAt]
  exact nameOrNone_eq_ofField names _

/-! ## Names in commands -/

/-- The name in the body of a command, if it is one of those that hold a name. -/
def CommandBody.name? : CommandBody → Option String
  | .dylib c => some c.name
  | .path name => some name
  | _ => none

/-- The commands that hold a name: those for a library and those that hold nothing else. -/
def CommandShape.IsNamed (shape : CommandShape) : Prop := shape = .dylib ∨ shape = .path

namespace Command

variable {options : Options} {image : ByteArray} {pos cursor : Nat} {h : CommandHeader}
  {shape : CommandShape} {body : CommandBody}

/-- The bytes of a command from where it says that its name is to its end. -/
def nameBytes (image : ByteArray) (h : CommandHeader) : List UInt8 :=
  let start := h.offset + (word image (h.offset + 8)).toNat
  window image start (h.endOffset - start)

theorem nameAt_eq_ofField (hle : (word image (h.offset + 8)).toNat ≤ h.length.toNat) :
    nameAt image h (word image (h.offset + 8)) = Name.ofField (nameBytes image h) := by
  rw [nameAt, nameBytes, UInt32.toNat_sub_of_le _ _ (UInt32.le_iff_toNat_le.2 hle),
    CommandHeader.endOffset, Nat.add_sub_add_left]

/-- The name in a command is read only if the command ends inside the image. -/
theorem endOffset_le_of_yields_readName {nameOffset : UInt32} {name : String}
    (hname : (readName h nameOffset).Yields image pos name cursor) : h.endOffset ≤ image.size := by
  rw [readName, Reader.yields_unless, UInt32.not_lt, UInt32.le_iff_toNat_le,
    Reader.yields_seek_bind, Reader.yields_fixedName] at hname
  obtain ⟨hle, -, hend, -, -⟩ := hname
  rw [UInt32.toNat_sub_of_le _ _ (UInt32.le_iff_toNat_le.2 hle)] at hend
  unfold CommandHeader.endOffset
  omega

theorem endOffset_le_of_isNamed (hshape : shape.IsNamed)
    (hok : (readBody options h shape image h.offset).result = .ok body) :
    h.endOffset ≤ image.size := by
  obtain ⟨cursor, hbody⟩ := Reader.result_eq_ok_iff.1 hok
  -- both shapes are read as a record and then the name
  rcases hshape with rfl | rfl
  all_goals
    obtain ⟨v, middle, -, hrest⟩ := Reader.yields_bind.1 hbody
    obtain ⟨name, last, hname, -⟩ := Reader.yields_bind.1 hrest
    exact endOffset_le_of_yields_readName hname

/-- The name in the body that lies at the place of a command. -/
theorem name?_bodyAt (hshape : shape.IsNamed)
    (hfits : shape.Fits options image h.offset h.length.toNat) :
    (bodyAt options image h shape).name? = some (Name.ofField (nameBytes image h)) := by
  rcases hshape with rfl | rfl <;> exact congrArg some (nameAt_eq_ofField hfits.2)

/-- A command with a name is decoded exactly if it ends inside the image and fits, and its name is
the text of its bytes from where it says. -/
theorem result_readBody_of_isNamed (hshape : shape.IsNamed) {name : String} :
    (∃ body, (readBody options h shape image h.offset).result = .ok body ∧
        body.name? = some name) ↔
      h.endOffset ≤ image.size ∧ shape.Fits options image h.offset h.length.toNat ∧
        name = Name.ofField (nameBytes image h) := by
  constructor
  · rintro ⟨body, hok, hname⟩
    have hend := endOffset_le_of_isNamed hshape hok
    obtain ⟨hfits, rfl⟩ := (result_readBody hend).1 hok
    rw [name?_bodyAt hshape hfits, Option.some.injEq] at hname
    exact ⟨hend, hfits, hname.symm⟩
  · rintro ⟨hend, hfits, rfl⟩
    exact ⟨_, (result_readBody hend).2 ⟨hfits, rfl⟩, name?_bodyAt hshape hfits⟩

end Command

/-! ## All places -/

namespace Name

/-- A name that was read, with the bytes that it was taken from: all those from its first one to the
last that could have been part of it. -/
inductive Read : List UInt8 → String → Prop
  /-- The name in a field. -/
  | field (bs : List UInt8) : Read bs (ofField bs)
  /-- A name read from a field at the cursor. -/
  | fixed {image : ByteArray} {pos n cursor : Nat} {name : String} :
      (Reader.fixedName n).Yields image pos name cursor → Read (window image pos n) name
  /-- A name that has to end in a zero byte. -/
  | terminated {image : ByteArray} {pos cursor : Nat} {name : String} :
      Reader.terminatedName.Yields image pos name cursor → Read (windowFrom image pos) name
  /-- The name of an entry of a symbol table. -/
  | symbol {image names : ByteArray} {pos cursor : Nat} {e : SymbolEntry} :
      (SymbolEntry.read names).Yields image pos e cursor →
      Read (SymbolEntry.nameBytes names (word image pos).toNat) e.name
  /-- The name in a command. -/
  | command {options : Options} {image : ByteArray} {h : CommandHeader} {shape : CommandShape}
      {body : CommandBody} {name : String} : shape.IsNamed →
      (Command.readBody options h shape image h.offset).result = .ok body →
      body.name? = some name → Read (Command.nameBytes image h) name

/-- A name that was read is the text of the bytes before the first zero byte, wherever it was. -/
theorem Read.eq_ofField {bs : List UInt8} {name : String} (h : Read bs name) :
    name = ofField bs := by
  cases h with
  | field => rfl
  | fixed hyields => exact (Reader.yields_fixedName.1 hyields).2.1
  | terminated hyields =>
    obtain ⟨used, hfound, -⟩ := Reader.yields_scan.1 hyields
    exact (terminated?_eq_some_iff.1 hfound).2.1
  | @symbol image names pos _ _ hyields =>
    obtain ⟨-, rfl, -⟩ := SymbolEntry.yields_read.1 hyields
    exact SymbolEntry.name_entryAt image names pos
  | command hshape hok hname =>
    exact ((Command.result_readBody_of_isNamed hshape).1 ⟨_, hok, hname⟩).2.2

/-- A text is read back at all places, from its UTF-8 bytes. -/
structure ReadBack (s : String) : Prop where
  /-- From a field of any width that holds them, padded with zeros, -/
  field : ∀ width, s.toUTF8.data.toList.length ≤ width →
    ofField (s.toUTF8.data.toList ++
      List.replicate (width - s.toUTF8.data.toList.length) 0) = s
  /-- also if the field is read at the cursor and holds more behind the zero byte; -/
  fixed : ∀ image pos n, pos + n ≤ image.size →
    Holds (window image pos n) s.toUTF8.data.toList →
    (Reader.fixedName n).Yields image pos s (pos + n)
  /-- from before a zero byte, whatever follows, with the cursor behind the zero byte; -/
  terminated : ∀ image pos rest,
    windowFrom image pos = s.toUTF8.data.toList ++ [0] ++ rest →
    Reader.terminatedName.Yields image pos s (pos + (s.toUTF8.data.toList.length + 1))
  /-- for a symbol that refers to them among the names of its table; -/
  symbol : ∀ image names pos, pos + 12 ≤ image.size → word image pos ≠ 0 →
    Holds (windowFrom names (word image pos).toNat) s.toUTF8.data.toList →
    ∃ e, (SymbolEntry.read names).Yields image pos e (pos + 12) ∧ e.name = s
  /-- and for a command that says where in it they are. -/
  command : ∀ options image h shape, CommandShape.IsNamed shape →
    CommandHeader.endOffset h ≤ image.size → shape.Fits options image h.offset h.length.toNat →
    Holds (Command.nameBytes image h) s.toUTF8.data.toList →
    ∃ body, (Command.readBody options h shape image h.offset).result = .ok body ∧
      body.name? = some s

theorem readBack {s : String} (hs : '\x00' ∉ s.toList) : ReadBack s where
  field width _ := ofField_of_holds hs (holds_append_replicate _ _)
  fixed image pos n hle hholds :=
    Reader.yields_fixedName.2 ⟨hle, (ofField_of_holds hs hholds).symm, rfl⟩
  terminated image pos rest hahead := by
    refine Reader.yields_scan.2 ⟨_, ?_, rfl⟩
    rw [hahead]
    exact terminated?_toUTF8 hs rest
  symbol image names pos hle hne hholds := by
    have hoffset : (word image pos).toNat ≠ 0 := fun hzero => hne (UInt32.toNat_inj.1 hzero)
    refine ⟨_, SymbolEntry.yields_read.2 ⟨hle, rfl, rfl⟩, ?_⟩
    rw [SymbolEntry.name_entryAt, SymbolEntry.nameBytes, if_neg hoffset, ofField_of_holds hs hholds]
  command options image h shape hshape hend hfits hholds :=
    (Command.result_readBody_of_isNamed hshape).2
      ⟨hend, hfits, (ofField_of_holds hs hholds).symm⟩

/-- **All readers of names agree.**  A text without the zero character is read back at all places.
Whatever the bytes are, no name that is read has the zero character, and names that are read from the
same bytes up to the first zero byte are the same, also if they are read at different places. -/
theorem readers_agree :
    (∀ s : String, '\x00' ∉ s.toList → ReadBack s) ∧
      (∀ bs name, Read bs name → '\x00' ∉ name.toList) ∧
      ∀ bs bs' name name', Read bs name → Read bs' name' → beforeZero bs = beforeZero bs' →
        name = name' := by
  refine ⟨fun s hs => readBack hs, fun bs name h => ?_, fun bs bs' name name' h h' hbefore => ?_⟩
  · rw [h.eq_ofField]
    exact zero_notMem_ofField bs
  · rw [h.eq_ofField, h'.eq_ofField, ofField, ofField, hbefore]

/-- A command for a library of which the name takes two bytes and ends with the command. -/
def accentedLibrary : ByteArray := ⟨#[
  12, 0, 0, 0, 26, 0, 0, 0, 24, 0, 0, 0, 0, 0, 0, 0, 0, 0, 0, 0, 0, 0, 0, 0, 0xC3, 0xA9]⟩

/-- What its first two words say. -/
def accentedHeader : CommandHeader := ⟨.loadDylib, 26, 0⟩

/-- The name of the library is the one that a field with the same two bytes holds, whatever stands
behind the zero byte; and a field with the first of them alone has no zero character either. -/
theorem accentedLibrary_agrees :
    '\x00' ∉ "é".toList ∧
      (∃ body, (Command.readBody {} accentedHeader .dylib accentedLibrary 0).result = .ok body ∧
        body.name? = some "é") ∧
      ofField [0xC3, 0xA9, 0, 7] = "é" ∧ '\x00' ∉ (ofField [0xC3, 0, 7]).toList := by
  have hs : '\x00' ∉ "é".toList := by decide
  have hfits : CommandShape.dylib.Fits {} accentedLibrary 0 26 := ⟨by decide, by decide⟩
  have hholds : Holds (Command.nameBytes accentedLibrary accentedHeader) "é".toUTF8.data.toList :=
    ⟨[], by decide, nofun⟩
  obtain ⟨body, hok, hname⟩ := (readers_agree.1 "é" hs).command {} accentedLibrary accentedHeader
    .dylib (Or.inl rfl) (by decide) hfits hholds
  have hsame := readers_agree.2.2 _ _ _ _ (.field [0xC3, 0xA9, 0, 7])
    (.command (Or.inl rfl) hok hname) (by decide)
  exact ⟨hs, ⟨body, hok, hname⟩, hsame, readers_agree.2.1 _ _ (.field [0xC3, 0, 7])⟩

end Name

end MachImage
