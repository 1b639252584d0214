import MachImage.Proofs.Reader.Failures
import MachImage.Proofs.Record.Fields

/-!
# Words read at once

`Reader.words` takes all the bytes of its words before it looks at any of them.
It gives the words that as many reads of a single word give one after another
(`Successive`), and where one of those reads would fail it fails at once, with
the cursor where it was and the size that all of the words would need.

The words read at once are followed one by one: the first is a word read by
itself, and the others are read at once from behind it (`yields_words_succ`).
-/

namespace MachImage

/-- The number in the first four bytes, then those in the bytes behind them. -/
theorem LittleEndian.words_append {as : List UInt8} (h : as.length = 4) (bs : List UInt8) :
    words (as ++ bs) = u32 as :: words bs := by
  match as, h with
  | [_, _, _, _], _ => rfl

namespace Reader

variable {α : Type} {r : Reader α} {image : ByteArray} {pos cursor n : Nat}

/-! ## Reads one after another -/

/-- Reads that are made one after another, each from the cursor of the one before, and all succeed:
their values, and the cursor after the last. -/
inductive Successive (r : Reader α) (image : ByteArray) : Nat → List α → Nat → Prop
  | nil {pos : Nat} : Successive r image pos [] pos
  | cons {pos middle cursor : Nat} {a : α} {as : List α} : r.Yields image pos a middle →
      Successive r image middle as cursor → Successive r image pos (a :: as) cursor

theorem successive_nil_iff : r.Successive image pos [] cursor ↔ cursor = pos := by
  constructor
  · intro h
    cases h
    rfl
  · rintro rfl
    exact .nil

theorem successive_cons_iff {a : α} {as : List α} :
    r.Successive image pos (a :: as) cursor ↔
      ∃ middle, r.Yields image pos a middle ∧ r.Successive image middle as cursor := by
  constructor
  · rintro ⟨⟩
    exact ⟨_, ‹_›, ‹_›⟩
  · rintro ⟨middle, ha, has⟩
    exact .cons ha has

/-! ## Words -/

/-- The first of the words is one read by itself, and the others are read at once behind it. -/
theorem yields_words_succ {ws : List UInt32} :
    (words (n + 1)).Yields image pos ws cursor ↔
      ∃ w rest, ws = w :: rest ∧ u32.Yields image pos w (pos + 4) ∧
        (words n).Yields image (pos + 4) rest cursor := by
  have hsplit (hle : pos + 4 ≤ image.size) :
      LittleEndian.words (window image pos (4 * (n + 1))) =
        word image pos :: LittleEndian.words (window image (pos + 4) (4 * n)) := by
    rw [Nat.mul_succ, Nat.add_comm, ← window_append, LittleEndian.words_append, word]
    rw [length_window]
    omega
  constructor
  · intro h
    obtain ⟨hle, rfl, rfl⟩ := yields_words.1 h
    exact ⟨_, _, hsplit (by omega), yields_u32.2 ⟨by omega, rfl, rfl⟩,
      yields_words.2 ⟨by omega, rfl, by omega⟩⟩
  · rintro ⟨w, rest, rfl, hw, hrest⟩
    obtain ⟨hle, rfl, -⟩ := yields_u32.1 hw
    obtain ⟨hle', rfl, rfl⟩ := yields_words.1 hrest
    exact yields_words.2 ⟨by omega, (hsplit hle).symm, by omega⟩

/-- The words read at once are those that are read one after another. -/
theorem yields_words_iff_successive (hpos : pos ≤ image.size) {ws : List UInt32} :
    (words n).Yields image pos ws cursor ↔ ws.length = n ∧ u32.Successive image pos ws cursor := by
  -- on the count of words; the cursor stays inside the image
  induction n generalizing pos ws with
  | zero =>
    have hnone : LittleEndian.words (window image pos (4 * 0)) = [] := by
      simp [window_eq, LittleEndian.words]
    rw [yields_words, hnone, List.length_eq_zero_iff]
    constructor
    · rintro ⟨-, rfl, rfl⟩
      exact ⟨rfl, .nil⟩
    · rintro ⟨rfl, h⟩
      exact ⟨hpos, rfl, successive_nil_iff.1 h⟩
  | succ n ih =>
    rw [yields_words_succ]
    constructor
    · rintro ⟨w, rest, rfl, hfirst, hrest⟩
      have hmiddle : pos + 4 ≤ image.size := (yields_u32.1 hfirst).1
      obtain ⟨hlength, hrest⟩ := (ih hmiddle).1 hrest
      exact ⟨by rw [List.length_cons, hlength], .cons hfirst hrest⟩
    · rintro ⟨hlength, hws⟩
      obtain ⟨w, rest, rfl⟩ := List.exists_cons_of_length_eq_add_one hlength
      obtain ⟨middle, hfirst, hrest⟩ := successive_cons_iff.1 hws
      obtain ⟨hmiddle, -, rfl⟩ := yields_u32.1 hfirst
      exact ⟨w, rest, rfl, hfirst, (ih hmiddle).2 ⟨Nat.succ.inj hlength, hrest⟩⟩

theorem fails_words {e : Error} :
    (words n).Fails image pos e cursor ↔
      image.size < pos + 4 * n ∧
        e = .bufferTooSmall (min (pos + 4 * n) lastPosition) image.size ∧ cursor = pos :=
  fails_bytes_map

/-- The size that `n` words from a position on need, or the greatest 64-bit number if the bytes of
the words or that size cannot be counted in 64 bits. -/
def sizeForWords (pos n : Nat) : Nat :=
  if 4 * n < UInt64.size ∧ pos + 4 * n < UInt64.size then pos + 4 * n else UInt64.size - 1

theorem min_lastPosition (pos n : Nat) : min (pos + 4 * n) lastPosition = sizeForWords pos n := by
  unfold sizeForWords lastPosition
  have hsize : 0 < UInt64.size := by decide
  split_ifs <;> omega

/-- **Words are read at once as they are read one by one.**  The words read at once are the values
of as many reads of a single word, and the cursor is left where the last of these leaves it.  If not
all of these reads succeed, the cursor stays, and the failure tells the size that the words need. -/
theorem words_iff_successive (hpos : pos ≤ image.size) (n : Nat) :
    (∀ ws cursor, (words n).Yields image pos ws cursor ↔
        ws.length = n ∧ u32.Successive image pos ws cursor) ∧
      ∀ e cursor, (words n).Fails image pos e cursor ↔
        (¬ ∃ ws last, ws.length = n ∧ u32.Successive image pos ws last) ∧
          e = .bufferTooSmall (sizeForWords pos n) image.size ∧ cursor = pos := by
  refine ⟨fun ws cursor => yields_words_iff_successive hpos, fun e cursor => ?_⟩
  have hnone : image.size < pos + 4 * n ↔
      ¬ ∃ ws last, ws.length = n ∧ u32.Successive image pos ws last := by
    simp only [← yields_words_iff_successive hpos, yields_words]
    constructor
    · rintro hlt ⟨ws, last, hle, -⟩
      omega
    · intro h
      by_contra hle
      exact h ⟨_, _, by omega, rfl, rfl⟩
  rw [fails_words, hnone, min_lastPosition]

/-- Two words behind a byte, and a byte behind them. -/
def wordsBetweenBytes : ByteArray := ⟨#[9, 1, 0, 0, 0, 2, 0, 0, 0, 7]⟩

/-- Both words are read at once; a third one is missing, and so many that their bytes cannot be
counted in 64 bits are reported as needing the greatest size. -/
theorem wordsBetweenBytes_words :
    u32.Successive wordsBetweenBytes 1 [1, 2] 9 ∧
      (¬ ∃ ws last, ws.length = 3 ∧ u32.Successive wordsBetweenBytes 1 ws last) ∧
      (¬ ∃ ws last, ws.length = 0x4000000000000000 ∧ u32.Successive wordsBetweenBytes 1 ws last) ∧
      sizeForWords 1 0x4000000000000000 = 0xFFFFFFFFFFFFFFFF := by
  have hpos : 1 ≤ wordsBetweenBytes.size := by decide
  have htwo := ((words_iff_successive hpos 2).1 [1, 2] 9).1 ⟨rfl, rfl⟩
  have hthree := ((words_iff_successive hpos 3).2 (.bufferTooSmall 13 10) 1).1 ⟨rfl, rfl⟩
  have hmany := ((words_iff_successive hpos 0x4000000000000000).2
    (.bufferTooSmall 0xFFFFFFFFFFFFFFFF 10) 1).1 ⟨rfl, rfl⟩
  exact ⟨htwo.2, hthree.1, hmany.1, rfl⟩

end Reader

end MachImage
