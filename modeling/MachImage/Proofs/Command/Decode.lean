import MachImage.Proofs.Command.Body

/-!
# When a command is decoded

A command that ends inside the image is decoded exactly if it fits
(`CommandShape.Fits`), and then to the body that lies there
(`Command.result_readBody`).  There is one equivalence for each reader of a
body; all of them start with the record, which `yields_readRecord_bind` reads
for them.
-/

namespace MachImage

variable {image : ByteArray} {pos cursor : Nat}

/-! ## Entries of tables -/

theorem SymbolEntry.yields_readName {names : ByteArray} {start offset : Nat} {name : String} :
    (readName names start offset).Yields image pos name cursor ↔
      name = nameOrNone names offset ∧ cursor = pos := by
  unfold readName nameOrNone
  by_cases hzero : offset = 0
  · rw [if_pos hzero, if_pos hzero]
    exact Reader.yields_pure
  · rw [if_neg hzero, if_neg hzero]
    by_cases hle : offset ≤ names.size
    · rw [if_pos hle, if_pos hle]
      exact Reader.yields_pure
    · rw [if_neg hle, if_neg hle]
      exact Reader.yields_note_bind.trans Reader.yields_pure

/-- An entry of a symbol table is read wherever there are twelve bytes. -/
theorem SymbolEntry.yields_read {names : ByteArray} {e : SymbolEntry} :
    (SymbolEntry.read names).Yields image pos e cursor ↔
      pos + 12 ≤ image.size ∧ e = SymbolEntry.entryAt image names pos ∧ cursor = pos + 12 := by
  rw [SymbolEntry.read, Reader.yields_position_bind, Reader.yields_bind_of_iff Reader.yields_record]
  refine and_congr_right fun _ => ?_
  have hname : ∀ {start offset at' c : Nat} {name : String},
      (readName names start offset).Yields image at' name c ↔
        True ∧ name = nameOrNone names offset ∧ c = at' :=
    fun {_ _ _ _ _} => yields_readName.trans (by rw [true_and])
  exact (Reader.yields_bind_of_iff hname).trans ((iff_of_eq (true_and _)).trans Reader.yields_pure)

namespace Command

theorem yields_readSection {s : SectionHeader} :
    readSection.Yields image pos s cursor ↔
      pos + 68 ≤ image.size ∧ s = sectionAt image pos ∧ cursor = pos + 68 :=
  Reader.yields_record_map

theorem yields_readTool {t : BuildTool} :
    readTool.Yields image pos t cursor ↔
      pos + 8 ≤ image.size ∧ t = toolAt image pos ∧ cursor = pos + 8 :=
  Reader.yields_record_map

/-! ## Records -/

variable {α : Type} {options : Options} {h : CommandHeader} {body : CommandBody}

/-- The record of a command that ends inside the image is read if the command is as long. -/
theorem result_readRecord_bind {r : Record} {f : r.Values → Reader α} {a : α}
    (hend : h.endOffset ≤ image.size) :
    ((readRecord h r >>= f) image h.offset).result = .ok a ↔
      r.size ≤ h.length.toNat ∧
        (f (r.layout.readAt image h.offset) image (h.offset + r.size)).result = .ok a := by
  unfold CommandHeader.endOffset at hend
  refine Reader.result_bind_of_iff fun {v c} => ?_
  rw [readRecord, Reader.yields_unless, Reader.yields_record, ← and_assoc]
  exact and_congr_left fun _ => by omega

/-- A body that is computed from the record alone. -/
theorem result_readRecord_map {r : Record} {f : r.Values → CommandBody}
    (hend : h.endOffset ≤ image.size) :
    ((readRecord h r >>= fun v => Pure.pure (f v)) image h.offset).result = .ok body ↔
      r.size ≤ h.length.toNat ∧ body = f (r.layout.readAt image h.offset) := by
  rw [result_readRecord_bind hend, Reader.result_pure]

/-- The name in a command that ends inside the image is read if it starts inside the command. -/
theorem result_readName_bind {nameOffset : UInt32} {f : String → Reader α} {a : α}
    (hend : h.endOffset ≤ image.size) :
    ((readName h nameOffset >>= f) image pos).result = .ok a ↔
      nameOffset.toNat ≤ h.length.toNat ∧
        (f (nameAt image h nameOffset) image h.endOffset).result = .ok a := by
  unfold CommandHeader.endOffset at *
  refine Reader.result_bind_of_iff fun {name c} => ?_
  rw [readName, Reader.yields_unless, Reader.yields_seek_bind, Reader.yields_fixedName, nameAt,
    UInt32.not_lt, UInt32.le_iff_toNat_le]
  refine and_congr_right fun hle => ?_
  have hlength : (h.length - nameOffset).toNat = h.length.toNat - nameOffset.toNat :=
    UInt32.toNat_sub_of_le _ _ (UInt32.le_iff_toNat_le.2 hle)
  rw [hlength]
  constructor
  · rintro ⟨-, -, hname, hc⟩
    exact ⟨hname, by omega⟩
  · rintro ⟨hname, hc⟩
    exact ⟨by omega, by omega, hname, by omega⟩

/-- A table of entries of `k` bytes that follows the record of a command is read if the declared
length covers both. -/
theorem result_table {r : Reader α} {f : Nat → α} {k n base : Nat}
    (hr : ∀ {pos a cursor}, r.Yields image pos a cursor ↔
      pos + k ≤ image.size ∧ a = f pos ∧ cursor = pos + k)
    {e : Error} {g : List α → CommandBody} (hend : h.endOffset ≤ image.size) :
    base ≤ h.length.toNat ∧
        ((if h.length.toNat < base + n * k then Reader.fail e
          else Reader.times n r >>= fun as => Pure.pure (g as) : Reader CommandBody) image
            (h.offset + base)).result = .ok body ↔
      base + k * n ≤ h.length.toNat ∧
        body = g ((List.range n).map fun i => f (h.offset + base + k * i)) := by
  unfold CommandHeader.endOffset at hend
  rw [Nat.mul_comm n k, Reader.result_unless]
  constructor
  · rintro ⟨hbase, hle, hv⟩
    rw [Reader.result_bind_of_iff fun {_ _} => Reader.yields_times hr (by omega),
      Reader.result_pure] at hv
    exact ⟨by omega, hv.2⟩
  · rintro ⟨hle, hbody⟩
    rw [Reader.result_bind_of_iff fun {_ _} => Reader.yields_times hr (by omega),
      Reader.result_pure]
    exact ⟨by omega, by omega, by omega, hbody⟩

/-! ## Bodies -/

theorem result_readSegment (hend : h.endOffset ≤ image.size) :
    (readSegment h image h.offset).result = .ok body ↔
      CommandShape.segment.Fits options image h.offset h.length.toNat ∧
        body = bodyAt options image h .segment := by
  refine (result_readRecord_bind hend).trans ?_
  exact result_table yields_readSection hend

theorem result_readBuildVersion (hend : h.endOffset ≤ image.size) :
    (readBuildVersion h image h.offset).result = .ok body ↔
      CommandShape.buildVersion.Fits options image h.offset h.length.toNat ∧
        body = bodyAt options image h .buildVersion := by
  refine (result_readRecord_bind hend).trans ?_
  exact result_table yields_readTool hend

theorem result_readDylib (hend : h.endOffset ≤ image.size) :
    (readDylib h image h.offset).result = .ok body ↔
      CommandShape.dylib.Fits options image h.offset h.length.toNat ∧
        body = bodyAt options image h .dylib := by
  refine (result_readRecord_bind hend).trans (Iff.trans ?_ and_assoc.symm)
  refine and_congr_right fun _ => ?_
  exact (result_readName_bind hend).trans (and_congr_right fun _ => Reader.result_pure)

theorem result_readPath (hend : h.endOffset ≤ image.size) :
    (readPath h image h.offset).result = .ok body ↔
      CommandShape.path.Fits options image h.offset h.length.toNat ∧
        body = bodyAt options image h .path := by
  refine (result_readRecord_bind hend).trans (Iff.trans ?_ and_assoc.symm)
  refine and_congr_right fun _ => ?_
  exact (result_readName_bind hend).trans (and_congr_right fun _ => Reader.result_pure)

theorem result_readThread (hend : h.endOffset ≤ image.size) :
    (readThread h image h.offset).result = .ok body ↔
      CommandShape.thread.Fits options image h.offset h.length.toNat ∧
        body = bodyAt options image h .thread := by
  have hrecord : Record.thread.size = 16 := rfl
  have hstate : Record.armThreadState.size = 68 := rfl
  have hfits : CommandShape.thread.Fits options image h.offset h.length.toNat ↔
      16 ≤ h.length.toNat ∧ ¬ h.length.toNat < 84 ∧ h.offset + 16 + 68 ≤ image.size := by
    unfold CommandHeader.endOffset at hend
    rw [CommandShape.Fits]
    omega
  rw [hfits, and_assoc, and_assoc]
  refine (result_readRecord_bind hend).trans (and_congr_right fun _ => ?_)
  refine Reader.result_unless.trans (and_congr_right fun _ => ?_)
  exact (Reader.result_bind_of_iff Reader.yields_record).trans
    (and_congr_right fun _ => Reader.result_pure)

/-- The entries of a symbol table are read if they and the names lie inside the image. -/
theorem result_entries {symbolOffset symbolCount nameOffset nameSize : Nat}
    {entries : List SymbolEntry} :
    ((do
        Reader.seek nameOffset
        let names ← Reader.slice nameSize
        Reader.seek symbolOffset
        Reader.times symbolCount (SymbolEntry.read names) : Reader (List SymbolEntry))
      image pos).result = .ok entries ↔
      (nameOffset + nameSize ≤ image.size ∧ symbolOffset + 12 * symbolCount ≤ image.size) ∧
        entries = (List.range symbolCount).map fun k =>
          SymbolEntry.entryAt image (image.extract nameOffset (nameOffset + nameSize))
            (symbolOffset + 12 * k) := by
  rw [Reader.result_seek_bind, Reader.result_bind_of_iff Reader.yields_slice,
    Reader.result_seek_bind, Reader.result_eq_ok_iff]
  constructor
  · rintro ⟨-, hnames, hsymbols, c, hentries⟩
    obtain ⟨hle, hentries, -⟩ := (Reader.yields_times SymbolEntry.yields_read hsymbols).1 hentries
    exact ⟨⟨hnames, hle⟩, hentries⟩
  · rintro ⟨⟨hnames, hsymbols⟩, hentries⟩
    exact ⟨by omega, hnames, by omega, _,
      (Reader.yields_times SymbolEntry.yields_read (by omega)).2 ⟨hsymbols, hentries, rfl⟩⟩

theorem result_readSymtab (hend : h.endOffset ≤ image.size) :
    (readSymtab h image h.offset).result = .ok body ↔
      CommandShape.symtab.Fits options image h.offset h.length.toNat ∧
        body = bodyAt options image h .symtab := by
  refine (result_readRecord_bind hend).trans (Iff.trans ?_ and_assoc.symm)
  refine and_congr_right fun _ => ?_
  refine (Reader.result_bind_of_iff fun {_ _} => Reader.yields_within.trans
    ((and_congr_left fun _ => result_entries).trans and_assoc)).trans (and_congr_right fun _ => ?_)
  exact Reader.result_note_bind.trans Reader.result_pure

/-- The indirect symbol table is read if it is empty or lies inside the image. -/
theorem yields_readIndirect {offset count : UInt32} {symbols : List UInt32} :
    (readIndirect offset count).Yields image pos symbols cursor ↔
      (count = 0 ∨ offset.toNat + 4 * count.toNat ≤ image.size) ∧
        symbols = indirectAt image offset count ∧ cursor = pos := by
  unfold readIndirect indirectAt
  by_cases hcount : count = 0
  · rw [if_pos hcount, if_pos hcount]
    exact Reader.yields_pure.trans (by simp [hcount])
  · rw [if_neg hcount, if_neg hcount, or_iff_right hcount, Reader.yields_within,
      Reader.result_seek_bind, Reader.result_eq_ok_iff]
    constructor
    · rintro ⟨⟨-, c, hwords⟩, hcursor⟩
      obtain ⟨hle, hsymbols, -⟩ := Reader.yields_words.1 hwords
      exact ⟨hle, hsymbols, hcursor⟩
    · rintro ⟨hle, hsymbols, hcursor⟩
      exact ⟨⟨by omega, _, Reader.yields_words.2 ⟨hle, hsymbols, rfl⟩⟩, hcursor⟩

theorem result_readDysymtab (hend : h.endOffset ≤ image.size) :
    (readDysymtab h image h.offset).result = .ok body ↔
      CommandShape.dysymtab.Fits options image h.offset h.length.toNat ∧
        body = bodyAt options image h .dysymtab := by
  refine (result_readRecord_bind hend).trans (Iff.trans ?_ and_assoc.symm)
  refine and_congr_right fun _ => ?_
  exact (Reader.result_bind_of_iff yields_readIndirect).trans
    (and_congr_right fun _ => Reader.result_pure)

/-- The bindings of a stream are read if the stream is not to be read, or is empty, or lies inside
the image and is accepted. -/
theorem yields_readBindings {offset size : UInt32} {bindings : Option (List BindStream.Binding)} :
    (readBindings options offset size).Yields image pos bindings cursor ↔
      StreamFits options image offset size ∧ bindings = bindingsAt options image offset size ∧
        cursor = pos := by
  unfold readBindings bindingsAt
  by_cases hread : (size = 0 || !options.bindInfo) = true
  · have hfits : StreamFits options image offset size := by
      intro hinfo hsize
      simp [hinfo, hsize] at hread
    rw [if_pos hread, if_pos hread, and_iff_right hfits]
    exact Reader.yields_pure
  · have hfits : StreamFits options image offset size ↔ offset.toNat + size.toNat ≤ image.size ∧
        ∃ bindings, BindStream.parse (window image offset.toNat size.toNat) = .ok bindings := by
      rw [Bool.or_eq_true, not_or] at hread
      have hinfo : options.bindInfo = true := by simpa using hread.2
      have hsize : size ≠ 0 := by simpa using hread.1
      constructor
      · intro h
        exact h hinfo hsize
      · intro h _ _
        exact h
    rw [if_neg hread, if_neg hread, hfits, Reader.yields_within, Reader.result_seek_bind,
      Reader.result_bind_of_iff Reader.yields_bytes]
    cases hparse : BindStream.parse (window image offset.toNat size.toNat) with
    | error e =>
      constructor
      · rintro ⟨⟨-, -, hreport⟩, -⟩
        cases hreport
      · rintro ⟨⟨-, found, hfound⟩, -⟩
        cases hfound
    | ok found =>
      constructor
      · rintro ⟨⟨-, hle, hreport⟩, hcursor⟩
        exact ⟨⟨hle, found, rfl⟩, (Except.ok.inj hreport).symm, hcursor⟩
      · rintro ⟨⟨hle, -⟩, rfl, hcursor⟩
        exact ⟨⟨by omega, hle, rfl⟩, hcursor⟩

theorem result_readDyldInfo (hend : h.endOffset ≤ image.size) :
    (readDyldInfo options h image h.offset).result = .ok body ↔
      CommandShape.dyldInfo.Fits options image h.offset h.length.toNat ∧
        body = bodyAt options image h .dyldInfo := by
  rw [CommandShape.Fits, and_assoc, and_assoc, and_assoc]
  refine (result_readRecord_bind hend).trans (and_congr_right fun _ => ?_)
  refine (Reader.result_bind_of_iff yields_readBindings).trans (and_congr_right fun _ => ?_)
  refine (Reader.result_bind_of_iff yields_readBindings).trans (and_congr_right fun _ => ?_)
  refine (Reader.result_bind_of_iff yields_readBindings).trans (and_congr_right fun _ => ?_)
  exact Reader.result_note_bind.trans Reader.result_pure

/-! ## Every shape -/

/-- **A command that ends inside the image is decoded exactly if it fits**, and then to the body
that lies there. -/
theorem result_readBody {shape : CommandShape} (hend : h.endOffset ≤ image.size) :
    (readBody options h shape image h.offset).result = .ok body ↔
      shape.Fits options image h.offset h.length.toNat ∧ body = bodyAt options image h shape := by
  cases shape with
  | segment => exact result_readSegment hend
  | symtab => exact result_readSymtab hend
  | dysymtab => exact result_readDysymtab hend
  | dylib => exact result_readDylib hend
  | path => exact result_readPath hend
  | uuid => exact result_readRecord_map hend
  | thread => exact result_readThread hend
  | encryption => exact result_readRecord_map hend
  | linkedit => exact result_readRecord_map hend
  | versionMin => exact result_readRecord_map hend
  | dyldInfo => exact result_readDyldInfo hend
  | main => exact result_readRecord_map hend
  | sourceVersion => exact result_readRecord_map hend
  | buildVersion => exact result_readBuildVersion hend

end Command

end MachImage
