import MachImage.Proofs.BindStream.Positions
import MachImage.Proofs.Command.Faults

/-!
# Bind streams that the loader's tables declare

The command that holds the tables of the loader declares three bind streams, each
by its offset in the file and its size, and reads them one after another.  The
error of the first one that is refused is the error of the command, with its
offset counted from the start of the file (`Command.readDyldInfo_eq_error_iff`).
So it is reported inside the bytes of that stream, and an opcode that is not known
is the one of the byte there (`StreamRefused.lies_in_file`).
-/

namespace MachImage

variable {options : Options} {image : ByteArray} {pos cursor : Nat} {e : Error}

/-- The offset and the size of each stream that the record at a position declares, in the order in
which they are read. -/
def declaredStreams (image : ByteArray) (pos : Nat) : List (UInt32 × UInt32) :=
  [(word image (pos + 16), word image (pos + 20)), (word image (pos + 24), word image (pos + 28)),
    (word image (pos + 32), word image (pos + 36))]

/-- A stream lies inside the image and is refused. -/
structure StreamRefused (image : ByteArray) (offset size : UInt32) (e : Error) : Prop where
  size_ne_zero : size ≠ 0
  le_size : offset.toNat + size.toNat ≤ image.size
  parse_eq : BindStream.parse (window image offset.toNat size.toNat) = .error e

/-- An error is that of the first stream that is not accepted, with its offset counted from the
start of the file. -/
inductive BlamesFirst (image : ByteArray) : List (UInt32 × UInt32) → Error → Prop where
  | refused {offset size : UInt32} {e : Error} {streams : List (UInt32 × UInt32)}
      (hrefused : StreamRefused image offset size e) :
      BlamesFirst image ((offset, size) :: streams) (e.shift offset.toNat)
  | accepted {offset size : UInt32} {e : Error} {streams : List (UInt32 × UInt32)}
      (haccepted : StreamAccepted image offset size) (hlater : BlamesFirst image streams e) :
      BlamesFirst image ((offset, size) :: streams) e

/-! ## Reading the streams -/

namespace Command

variable {α : Type} {h : CommandHeader} {offset size : UInt32}

/-- What reading the bytes of a stream inside the image fails with, if that has a position. -/
theorem result_readStream (he : e.position?.isSome = true)
    {parse : List UInt8 → Except Error α} {notes : List UInt8 → List Note} :
    ((do
        Reader.seek offset.toNat
        let stream ← Reader.bytes size.toNat
        let bindings ← Reader.report (parse stream) (notes stream)
        return some bindings : Reader (Option α)) image pos).result = .error e ↔
      offset.toNat + size.toNat ≤ image.size ∧
        parse (window image offset.toNat size.toNat) = .error e := by
  rw [Reader.result_eq_error_iff]
  constructor
  · rintro ⟨cursor, hfails⟩
    rcases Reader.fails_bind.1 hfails with hseek | ⟨⟨⟩, start, hseek, hfails⟩
    · obtain ⟨-, rfl, -⟩ := Reader.fails_seek.1 hseek
      cases he
    obtain ⟨-, rfl⟩ := Reader.yields_seek.1 hseek
    rcases Reader.fails_bind.1 hfails with hbytes | ⟨stream, stop, hbytes, hfails⟩
    · obtain ⟨-, rfl, -⟩ := Reader.fails_take.1 hbytes
      cases he
    obtain ⟨hle, rfl, -⟩ := Reader.yields_bytes.1 hbytes
    exact ⟨hle, (Reader.fails_map.1 hfails).1⟩
  · rintro ⟨hle, hparse⟩
    refine ⟨offset.toNat + size.toNat, Reader.fails_bind.2 (Or.inr ⟨(), offset.toNat, ?_, ?_⟩)⟩
    · exact Reader.yields_seek.2 ⟨Nat.le_trans (Nat.le_add_right ..) hle, rfl⟩
    · exact Reader.fails_bind.2 (Or.inr ⟨_, _, Reader.yields_bytes.2 ⟨hle, rfl, rfl⟩,
        Reader.fails_map.2 ⟨hparse, rfl⟩⟩)

theorem mapError_eq_error_iff {result : Except Error α} {f : Error → Error} :
    result.mapError f = .error e ↔ ∃ e₀, result = .error e₀ ∧ f e₀ = e := by
  cases result <;> simp [Except.mapError]

/-- A stream that is read fails with a position only if it is refused. -/
theorem fails_readBindings (he : e.position?.isSome = true) (hinfo : options.bindInfo = true) :
    (readBindings options offset size).Fails image pos e cursor ↔
      (∃ e₀, StreamRefused image offset size e₀ ∧ e₀.shift offset.toNat = e) ∧ cursor = pos := by
  unfold readBindings
  by_cases hsize : size = 0
  · rw [if_pos (by simp [hsize])]
    refine iff_of_false Reader.not_fails_pure ?_
    rintro ⟨⟨e₀, hrefused, -⟩, -⟩
    exact hrefused.size_ne_zero hsize
  · rw [if_neg (by simp [hsize, hinfo]), Reader.fails_within, result_readStream he,
      mapError_eq_error_iff]
    refine and_congr_left fun _ => ?_
    constructor
    · rintro ⟨hle, e₀, hparse, hshift⟩
      exact ⟨e₀, ⟨hsize, hle, hparse⟩, hshift⟩
    · rintro ⟨e₀, hrefused, hshift⟩
      exact ⟨hrefused.le_size, e₀, hrefused.parse_eq, hshift⟩

/-- A stream is read, and then the streams behind it. -/
theorem fails_readBindings_bind (he : e.position?.isSome = true) (hinfo : options.bindInfo = true)
    {f : Option (List BindStream.Binding) → Reader α} {streams : List (UInt32 × UInt32)}
    (hf : ∀ bindings, (∃ cursor, (f bindings).Fails image pos e cursor) ↔
      BlamesFirst image streams e) :
    (∃ cursor, (readBindings options offset size >>= f).Fails image pos e cursor) ↔
      BlamesFirst image ((offset, size) :: streams) e := by
  constructor
  · rintro ⟨cursor, hfails⟩
    rcases Reader.fails_bind.1 hfails with hfirst | ⟨bindings, middle, hfirst, hlater⟩
    · obtain ⟨⟨e₀, hrefused, rfl⟩, -⟩ := (fails_readBindings he hinfo).1 hfirst
      exact .refused hrefused
    · obtain ⟨hfits, -, rfl⟩ := yields_readBindings.1 hfirst
      exact .accepted ((streamFits_iff_of_reads hinfo).1 hfits) ((hf _).1 ⟨cursor, hlater⟩)
  · intro hblames
    cases hblames with
    | refused hrefused =>
      exact ⟨pos, Reader.fails_bind.2 (Or.inl
        ((fails_readBindings he hinfo).2 ⟨⟨_, hrefused, rfl⟩, rfl⟩))⟩
    | accepted haccepted hlater =>
      obtain ⟨cursor, hlater⟩ := (hf (bindingsAt options image offset size)).2 hlater
      exact ⟨cursor, Reader.fails_bind.2 (Or.inr ⟨_, pos, yields_readBindings.2
        ⟨(streamFits_iff_of_reads hinfo).2 haccepted, rfl, rfl⟩, hlater⟩)⟩

/-- What follows a record fails with a position only behind the record. -/
theorem fails_readRecord_bind (he : e.position?.isSome = true) {r : Record}
    {f : r.Values → Reader α} :
    (∃ cursor, (readRecord h r >>= f).Fails image pos e cursor) ↔
      r.size ≤ h.length.toNat ∧ pos + r.size ≤ image.size ∧
        ∃ cursor, (f (r.layout.readAt image pos)).Fails image (pos + r.size) e cursor := by
  constructor
  · rintro ⟨cursor, hfails⟩
    rcases Reader.fails_bind.1 hfails with hrecord | ⟨v, middle, hrecord, hrest⟩
    · rcases Reader.fails_unless.1 hrecord with ⟨-, rfl, -⟩ | ⟨-, hrecord⟩
      · cases he
      · obtain ⟨-, rfl, -⟩ := Reader.fails_bytes_map.1 hrecord
        cases he
    · obtain ⟨hlength, hrecord⟩ := Reader.yields_unless.1 hrecord
      obtain ⟨hle, rfl, rfl⟩ := Reader.yields_record.1 hrecord
      exact ⟨Nat.le_of_not_lt hlength, hle, cursor, hrest⟩
  · rintro ⟨hlength, hle, cursor, hrest⟩
    refine ⟨cursor, Reader.fails_bind.2 (Or.inr ⟨_, _, ?_, hrest⟩)⟩
    exact Reader.yields_unless.2 ⟨Nat.not_lt.2 hlength, Reader.yields_record.2 ⟨hle, rfl, rfl⟩⟩

/-- **The error of the loader's tables.**  An error with a position is that of the first of the
three streams that is not accepted, and such an error of that stream is the error of the tables. -/
theorem result_readDyldInfo_eq_error_iff (he : e.position?.isSome = true) :
    (readDyldInfo options h image pos).result = .error e ↔
      Record.dyldInfo.size ≤ h.length.toNat ∧ pos + Record.dyldInfo.size ≤ image.size ∧
        options.bindInfo = true ∧ BlamesFirst image (declaredStreams image pos) e := by
  rw [Reader.result_eq_error_iff]
  cases hinfo : options.bindInfo with
  | false =>
    obtain ⟨n, body, hread⟩ := readDyldInfo_eq hinfo h
    rw [hread, fails_readRecord_bind he]
    refine and_congr_right fun _ => and_congr_right fun _ => iff_of_false ?_ ?_
    · rintro ⟨cursor, hfails⟩
      exact absurd (Reader.fails_map.1 hfails) Reader.not_fails_note
    · rintro ⟨hfalse, -⟩
      cases hfalse
  | true =>
    refine (fails_readRecord_bind he).trans
      (and_congr_right fun _ => and_congr_right fun _ => ?_)
    rw [and_iff_right rfl]
    -- the three streams in the order in which they are read, and nothing that fails behind them
    refine fails_readBindings_bind he hinfo fun bindings => ?_
    refine fails_readBindings_bind he hinfo fun weakBindings => ?_
    refine fails_readBindings_bind he hinfo fun lazyBindings => ?_
    refine iff_of_false ?_ nofun
    rintro ⟨cursor, hfails⟩
    exact absurd (Reader.fails_map.1 hfails) Reader.not_fails_note

end Command

/-! ## In the file -/

/-- An error is that of a refused stream and is reported inside its bytes, or behind the last of
them; an opcode that is not known is that of the byte where it is reported. -/
structure ReportedIn (image : ByteArray) (offset size : UInt32) (e : Error) (p : Nat) : Prop where
  refused : ∃ e₀, StreamRefused image offset size e₀ ∧ e₀.shift offset.toNat = e
  le : offset.toNat ≤ p
  le_end : p ≤ offset.toNat + size.toNat
  byte : ∀ opcode, e = .unknownBindOpcode opcode p →
    ∃ b, image.data.toList[p]? = some b ∧ opcode = BindStream.opcodeBits b ∧
      opcode ∈ [0xD0, 0xE0, 0xF0]

/-- A byte of a window is a byte of the image. -/
theorem getElem?_of_window {len k : Nat} {b : UInt8} (h : (window image pos len)[k]? = some b) :
    image.data.toList[pos + k]? = some b := by
  rw [window_eq, List.getElem?_take] at h
  split_ifs at h
  rw [List.getElem?_drop] at h
  exact h

theorem StreamRefused.reportedIn {offset size : UInt32} {e₀ : Error}
    (h : StreamRefused image offset size e₀) :
    ∃ o, (e₀.shift offset.toNat).position? = some (offset.toNat + o) ∧
      ReportedIn image offset size (e₀.shift offset.toNat) (offset.toNat + o) := by
  obtain ⟨k, o, ho, -, hle, -, -, hpoints⟩ := BindStream.pointsAt_of_parse h.parse_eq
  have hlength : (window image offset.toNat size.toNat).length ≤ size.toNat := by
    rw [length_window]
    exact Nat.min_le_left ..
  refine ⟨o, by rw [Error.position?_shift, ho]; rfl, ⟨e₀, h, rfl⟩, Nat.le_add_right .., ?_, ?_⟩
  · exact Nat.add_le_add_left (Nat.le_trans hle hlength) _
  · intro opcode hopcode
    cases hpoints with
    | @opcode b hbyte hbits =>
      cases hopcode
      exact ⟨b, getElem?_of_window hbyte, rfl, hbits⟩
    | ordinal | repetition | name | unsigned | signed => cases hopcode

/-- The error of the first stream that is not accepted is reported in one of the streams. -/
theorem BlamesFirst.exists_reportedIn {streams : List (UInt32 × UInt32)}
    (h : BlamesFirst image streams e) :
    ∃ stream ∈ streams, ∃ p, e.position? = some p ∧ ReportedIn image stream.1 stream.2 e p := by
  induction h with
  | refused hrefused =>
    obtain ⟨o, ho, hreported⟩ := hrefused.reportedIn
    exact ⟨_, List.mem_cons_self .., _, ho, hreported⟩
  | accepted haccepted hlater ih =>
    obtain ⟨stream, hmem, hreported⟩ := ih
    exact ⟨stream, List.mem_cons_of_mem _ hmem, hreported⟩

/-- **Errors of bind streams point at the fault.**  In a stream, the error is reported where the
instruction at fault starts or at the operand that cannot be read, behind an accepted beginning.
For a stream that the tables of the loader declare it is the same error, counted from the start of
the file: the error of the tables, if it has a position, is that of the first stream that is not
accepted, and it is reported inside the bytes of that stream. -/
theorem bind_errors_point_at_fault :
    (∀ bs e, BindStream.parse bs = .error e → ∃ k o, e.position? = some o ∧ k ≤ o ∧
      o ≤ bs.length ∧ (∃ r, BindStream.parse (bs.take k) = .ok r) ∧
      (BindStream.Program.decode bs).instructions =
        (BindStream.Program.decode (bs.take k)).instructions ∧
      BindStream.PointsAt bs k o e) ∧
    (∀ options h image pos e, e.position?.isSome = true →
      ((Command.readDyldInfo options h image pos).result = .error e ↔
        Record.dyldInfo.size ≤ h.length.toNat ∧ pos + Record.dyldInfo.size ≤ image.size ∧
          options.bindInfo = true ∧ BlamesFirst image (declaredStreams image pos) e)) ∧
    ∀ image streams e, BlamesFirst image streams e →
      ∃ stream ∈ streams, ∃ p, e.position? = some p ∧ ReportedIn image stream.1 stream.2 e p :=
  ⟨fun _ _ => BindStream.pointsAt_of_parse,
    fun _ _ _ _ _ => Command.result_readDyldInfo_eq_error_iff,
    fun _ _ _ => BlamesFirst.exists_reportedIn⟩

/-- The tables of the loader with a stream of two bytes behind them, the second of which has an
opcode that is not known. -/
def tablesAndStream : ByteArray := ⟨#[
  0x22, 0, 0, 0, 48, 0, 0, 0, 0, 0, 0, 0, 0, 0, 0, 0, 48, 0, 0, 0, 2, 0, 0, 0,
  0, 0, 0, 0, 0, 0, 0, 0, 0, 0, 0, 0, 0, 0, 0, 0, 0, 0, 0, 0, 0, 0, 0, 0, 0x90, 0xD3]⟩

theorem tablesAndStream_points_at_fault :
    BindStream.parse [0x90, 0xD3] = .error (.unknownBindOpcode 0xD0 1) ∧
      (∃ k o, (Error.unknownBindOpcode 0xD0 1).position? = some o ∧ k ≤ o ∧
        BindStream.PointsAt [0x90, 0xD3] k o (.unknownBindOpcode 0xD0 1)) ∧
      (Command.readDyldInfo {} ⟨.dyldInfo, 48, 0⟩ tablesAndStream 0).result =
        .error (.unknownBindOpcode 0xD0 49) ∧
      ∃ stream ∈ declaredStreams tablesAndStream 0, ∃ p,
        (Error.unknownBindOpcode 0xD0 49).position? = some p ∧
          ReportedIn tablesAndStream stream.1 stream.2 (.unknownBindOpcode 0xD0 49) p := by
  have hparse : BindStream.parse [0x90, 0xD3] = .error (.unknownBindOpcode 0xD0 1) := rfl
  obtain ⟨hstream, htables, hreported⟩ := bind_errors_point_at_fault
  obtain ⟨k, o, ho, hle, -, -, -, hpoints⟩ := hstream _ _ hparse
  have hdeclared : declaredStreams tablesAndStream 0 = [(48, 2), (0, 0), (0, 0)] := by
    decide +kernel
  have hrefused : StreamRefused tablesAndStream 48 2 (.unknownBindOpcode 0xD0 1) :=
    ⟨by decide, by decide, hparse⟩
  have hblames : BlamesFirst tablesAndStream (declaredStreams tablesAndStream 0)
      (.unknownBindOpcode 0xD0 49) := hdeclared ▸ .refused hrefused
  have hread := (htables {} ⟨.dyldInfo, 48, 0⟩ tablesAndStream 0 _ rfl).2
    ⟨by decide, by decide, rfl, hblames⟩
  exact ⟨hparse, ⟨k, o, ho, hle, hpoints⟩, hread, hreported _ _ _ hblames⟩

end MachImage
