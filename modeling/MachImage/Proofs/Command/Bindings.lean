import MachImage.Proofs.Command.Tiling

/-!
# Commands with and without bindings

Of the options of reading, a walk over the commands looks at one only, whether
bind streams are read (`Walk.run_congr`).  Reading them adds the bindings to the
commands that hold the tables of the loader and may refuse a stream, and does
nothing else: without the bindings, the commands of a walk that reads them are
those of the walk that does not (`Walk.run_withoutBindings`), and where that one
succeeds the other does if every stream is accepted
(`Walk.failure_run_of_accepted`).  A stream is read in the middle of a command,
with the cursor of the walk, so this says that the cursor comes back.
-/

namespace MachImage

variable {options options' full bare : Options} {image : ByteArray} {pos count start : Nat}

/-! ## Options that a walk does not look at -/

theorem Command.readBody_congr (hinfo : options.bindInfo = options'.bindInfo) (h : CommandHeader)
    (shape : CommandShape) : readBody options h shape = readBody options' h shape := by
  cases shape with
  | dyldInfo =>
    unfold readBody readDyldInfo readBindings
    rw [hinfo]
  | _ => rfl

theorem Entry.read_congr (hinfo : options.bindInfo = options'.bindInfo) :
    Entry.read options = Entry.read options' := by
  unfold Entry.read readKnown
  simp only [Command.readBody_congr hinfo]

/-- A walk is the same under options that both read bind streams or both do not. -/
theorem Walk.run_congr (hinfo : options.bindInfo = options'.bindInfo) (image : ByteArray)
    (count start : Nat) : run options image count start = run options' image count start := by
  induction count generalizing start with
  | zero => rfl
  | succ count ih =>
    rw [run, run, Entry.read_congr hinfo]
    simp only [ih]

/-! ## Streams -/

/-- A stream of bindings is empty, or lies inside the image and can be read. -/
def StreamAccepted (image : ByteArray) (offset size : UInt32) : Prop :=
  size ≠ 0 → offset.toNat + size.toNat ≤ image.size ∧
    ∃ bindings, BindStream.parse (window image offset.toNat size.toNat) = .ok bindings

/-- Bindings are those of a stream: there are none exactly if the stream is empty, and otherwise
they are what its bytes say. -/
def StreamRead (image : ByteArray) (offset size : UInt32)
    (bindings : Option (List BindStream.Binding)) : Prop :=
  (bindings = none ↔ size = 0) ∧
    ∀ bs, bindings = some bs → BindStream.parse (window image offset.toNat size.toNat) = .ok bs

theorem streamFits_iff_of_reads (hfull : full.bindInfo = true) {offset size : UInt32} :
    StreamFits full image offset size ↔ StreamAccepted image offset size := by
  constructor
  · intro h
    exact h hfull
  · intro h _
    exact h

theorem streamFits_of_not_reads (hbare : bare.bindInfo = false) {offset size : UInt32} :
    StreamFits bare image offset size := by
  intro hinfo
  rw [hbare] at hinfo
  cases hinfo

theorem bindingsAt_of_not_reads (hbare : bare.bindInfo = false) (offset size : UInt32) :
    Command.bindingsAt bare image offset size = none := by
  unfold Command.bindingsAt
  rw [hbare, Bool.not_false, Bool.or_true, if_pos rfl]

theorem streamRead_bindingsAt (hfull : full.bindInfo = true) {offset size : UInt32}
    (h : StreamAccepted image offset size) :
    StreamRead image offset size (Command.bindingsAt full image offset size) := by
  unfold Command.bindingsAt
  rw [hfull, Bool.not_true, Bool.or_false]
  by_cases hsize : size = 0
  · rw [if_pos (decide_eq_true hsize)]
    refine ⟨⟨fun _ => hsize, fun _ => rfl⟩, fun bs hbs => ?_⟩
    cases hbs
  · obtain ⟨-, bindings, hparse⟩ := h hsize
    rw [if_neg (by rw [decide_eq_false hsize]; exact Bool.false_ne_true), hparse]
    refine ⟨⟨fun hnone => ?_, fun hzero => absurd hzero hsize⟩, fun bs hbs => ?_⟩
    · cases hnone
    · cases hbs
      exact hparse

/-! ## Commands -/

/-- The tables of the loader without the bindings of their streams. -/
def DyldInfoCommand.withoutBindings (d : DyldInfoCommand) : DyldInfoCommand :=
  { d with bindings := none, weakBindings := none, lazyBindings := none }

namespace CommandBody

def withoutBindings : CommandBody → CommandBody
  | .dyldInfo d => .dyldInfo d.withoutBindings
  | body => body

/-- The streams that a command declares are accepted. -/
def StreamsAccepted (image : ByteArray) : CommandBody → Prop
  | .dyldInfo d =>
    StreamAccepted image d.bindOffset d.bindSize ∧
      StreamAccepted image d.weakBindOffset d.weakBindSize ∧
      StreamAccepted image d.lazyBindOffset d.lazyBindSize
  | _ => True

/-- The bindings that a command holds are those of the streams that it declares. -/
def StreamsRead (image : ByteArray) : CommandBody → Prop
  | .dyldInfo d =>
    StreamRead image d.bindOffset d.bindSize d.bindings ∧
      StreamRead image d.weakBindOffset d.weakBindSize d.weakBindings ∧
      StreamRead image d.lazyBindOffset d.lazyBindSize d.lazyBindings
  | _ => True

end CommandBody

namespace Command

/-- A command without the bindings that it holds. -/
def withoutBindings (c : Command) : Command := { c with body := c.body.withoutBindings }

variable {h : CommandHeader} {shape : CommandShape}

theorem withoutBindings_bodyAt (hbare : bare.bindInfo = false) :
    (bodyAt full image h shape).withoutBindings = bodyAt bare image h shape := by
  cases shape with
  | dyldInfo =>
    unfold bodyAt dyldInfoAt
    simp only [bindingsAt_of_not_reads hbare, CommandBody.withoutBindings,
      DyldInfoCommand.withoutBindings]
  | _ => rfl

/-- A command fits with its streams if it fits without them and they are accepted. -/
theorem fits_iff (hfull : full.bindInfo = true) (hbare : bare.bindInfo = false) {len : Nat} :
    shape.Fits full image h.offset len ↔
      shape.Fits bare image h.offset len ∧ (bodyAt bare image h shape).StreamsAccepted image := by
  cases shape with
  | dyldInfo =>
    unfold CommandShape.Fits
    simp only [streamFits_iff_of_reads hfull]
    constructor
    · rintro ⟨hlength, hstreams⟩
      exact ⟨⟨hlength, streamFits_of_not_reads hbare, streamFits_of_not_reads hbare,
        streamFits_of_not_reads hbare⟩, hstreams⟩
    · rintro ⟨⟨hlength, -⟩, hstreams⟩
      exact ⟨hlength, hstreams⟩
  | _ => exact iff_of_eq (and_true _).symm

theorem streamsRead_bodyAt (hfull : full.bindInfo = true)
    (haccepted : (bodyAt bare image h shape).StreamsAccepted image) :
    (bodyAt full image h shape).StreamsRead image := by
  cases shape with
  | dyldInfo =>
    simp only [bodyAt, dyldInfoAt, CommandBody.StreamsAccepted] at haccepted
    simp only [bodyAt, dyldInfoAt, CommandBody.StreamsRead]
    obtain ⟨hbind, hweak, hlazy⟩ := haccepted
    exact ⟨streamRead_bindingsAt hfull hbind, streamRead_bindingsAt hfull hweak,
      streamRead_bindingsAt hfull hlazy⟩
  | _ => trivial

end Command

/-! ## Entries -/

namespace Entry

/-- An entry without the bindings that it holds. -/
def withoutBindings : Entry → Entry
  | decoded c => .decoded c.withoutBindings
  | skipped c => .skipped c

/-- The streams that an entry declares are accepted. -/
def StreamsAccepted (image : ByteArray) : Entry → Prop
  | decoded c => c.body.StreamsAccepted image
  | skipped _ => True

/-- The bindings that an entry holds are those of the streams that it declares. -/
def StreamsRead (image : ByteArray) : Entry → Prop
  | decoded c => c.body.StreamsRead image
  | skipped _ => True

theorem length_withoutBindings (e : Entry) : e.withoutBindings.length = e.length := by
  cases e <;> rfl

theorem filterMap_command?_withoutBindings (es : List Entry) :
    (es.map withoutBindings).filterMap command? =
      (es.filterMap command?).map Command.withoutBindings := by
  induction es with
  | nil => rfl
  | cons e es ih => cases e <;> simp [List.filterMap_cons, withoutBindings, command?, ih]

theorem filterMap_skipped?_withoutBindings (es : List Entry) :
    (es.map withoutBindings).filterMap skipped? = es.filterMap skipped? := by
  induction es with
  | nil => rfl
  | cons e es ih => cases e <;> simp [List.filterMap_cons, withoutBindings, skipped?, ih]

end Entry

namespace EntryAt

variable {e e' : Entry}

/-- There is one entry at a position. -/
theorem unique (h : EntryAt options image pos e) (h' : EntryAt options image pos e') : e = e' := by
  have hread := (Entry.yields_read.2 ⟨h, rfl⟩).1
  have hread' := (Entry.yields_read.2 ⟨h', rfl⟩).1
  rw [hread] at hread'
  exact Except.ok.inj hread'

variable (hfull : full.bindInfo = true) (hbare : bare.bindInfo = false)

include hfull hbare

/-- Where an entry is read with its bindings, it is also read without them. -/
theorem withoutBindings (h : EntryAt full image pos e) :
    EntryAt bare image pos e.withoutBindings ∧ e.withoutBindings.StreamsAccepted image ∧
      e.StreamsRead image := by
  cases h with
  | skipped hlength hend hid => exact ⟨.skipped hlength hend hid, trivial, trivial⟩
  | @decoded id shape hlength hend hid hshape hfits =>
    have herased : Entry.withoutBindings
        (.decoded ⟨headerAt image pos id, Command.bodyAt full image (headerAt image pos id) shape⟩) =
        .decoded ⟨headerAt image pos id, Command.bodyAt bare image (headerAt image pos id) shape⟩ :=
      congrArg (fun body => Entry.decoded ⟨headerAt image pos id, body⟩)
        (Command.withoutBindings_bodyAt hbare)
    obtain ⟨hbarefits, haccepted⟩ :=
      (Command.fits_iff (h := headerAt image pos id) hfull hbare).1 hfits
    rw [herased]
    exact ⟨.decoded hlength hend hid hshape hbarefits, haccepted,
      Command.streamsRead_bodyAt hfull haccepted⟩

/-- Where an entry is read without its bindings and its streams are accepted, it is also read with
them. -/
theorem exists_of_accepted (h : EntryAt bare image pos e) (haccepted : e.StreamsAccepted image) :
    ∃ e', EntryAt full image pos e' := by
  cases h with
  | skipped hlength hend hid => exact ⟨_, .skipped hlength hend hid⟩
  | @decoded id shape hlength hend hid hshape hfits =>
    have hfullfits : shape.Fits full image pos (lengthAt image pos).toNat :=
      (Command.fits_iff (h := headerAt image pos id) hfull hbare).2 ⟨hfits, haccepted⟩
    exact ⟨_, .decoded hlength hend hid hshape hfullfits⟩

end EntryAt

/-! ## Walks -/

namespace Walk

variable (hfull : full.bindInfo = true) (hbare : bare.bindInfo = false)

include hfull hbare

/-- **A walk that reads bindings and succeeds meets what the walk without them does**, and all the
streams that it meets are accepted. -/
theorem run_withoutBindings (h : (run full image count start).failure = none) :
    (run bare image count start).failure = none ∧
      (run bare image count start).entries =
        (run full image count start).entries.map Entry.withoutBindings ∧
      (∀ e ∈ (run bare image count start).entries, e.StreamsAccepted image) ∧
      ∀ e ∈ (run full image count start).entries, e.StreamsRead image := by
  induction count generalizing start with
  | zero =>
    refine ⟨rfl, rfl, fun e he => ?_, fun e he => ?_⟩
    · cases he
    · cases he
  | succ count ih =>
    obtain ⟨-, hfailure, -⟩ | ⟨e, hentry, hentries, hfailure, -⟩ :=
      run_succ_cases full image count start
    · exact absurd h hfailure
    · obtain ⟨hentry', haccepted, hread⟩ := hentry.withoutBindings hfull hbare
      obtain ⟨-, -, hnone⟩ | ⟨e', hentry'', hentries', hfailure', -⟩ :=
        run_succ_cases bare image count start
      · exact absurd hentry' (hnone _)
      · obtain rfl := hentry''.unique hentry'
        rw [hfailure] at h
        rw [Entry.length_withoutBindings] at hentries' hfailure'
        obtain ⟨hok, hmap, hall, hallread⟩ := ih h
        rw [hfailure', hentries', hentries, hmap, List.map_cons]
        refine ⟨hok, rfl, List.forall_mem_cons.2 ⟨haccepted, hmap ▸ hall⟩,
          List.forall_mem_cons.2 ⟨hread, hallread⟩⟩

/-- A walk succeeds with bindings if it does without them and all the streams are accepted. -/
theorem failure_run_of_accepted (h : (run bare image count start).failure = none)
    (haccepted : ∀ e ∈ (run bare image count start).entries, e.StreamsAccepted image) :
    (run full image count start).failure = none := by
  induction count generalizing start with
  | zero => rfl
  | succ count ih =>
    obtain ⟨-, hfailure, -⟩ | ⟨e, hentry, hentries, hfailure, -⟩ :=
      run_succ_cases bare image count start
    · exact absurd h hfailure
    · rw [hentries, List.forall_mem_cons] at haccepted
      obtain ⟨e', hentry'⟩ := hentry.exists_of_accepted hfull hbare haccepted.1
      obtain ⟨-, -, hnone⟩ | ⟨e'', hentry'', -, hfailure'', -⟩ :=
        run_succ_cases full image count start
      · exact absurd hentry' (hnone _)
      · rw [hfailure'', hentry''.length_eq, ← hentry.length_eq]
        exact ih (hfailure ▸ h) haccepted.2

end Walk

end MachImage
