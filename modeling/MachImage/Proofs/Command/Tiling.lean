import MachImage.Image.Query
import MachImage.Proofs.Command.Walk
import MachImage.Proofs.Image.Stages

/-!
# Commands tile their area

The decoded commands and those passed over go to two lists.  Merged by offset
(`Walk.merged`) the lists give back the entries of the walk
(`Walk.merged_eq_entries`), and these cover the area of the commands without a
gap or an overlap, whatever places of the file their decoders read
(`Walk.commands_tile`).  So an image has as many commands as its header says.
-/

namespace MachImage

/-! ## Merging -/

section Merge

variable {α : Type} {le : α → α → Bool}

/-- What comes before everything of the other list is merged first. -/
theorem merge_cons_left {x : α} {xs ys : List α} (h : ∀ y ∈ ys, le x y = true) :
    (x :: xs).merge ys le = x :: xs.merge ys le := by
  cases ys with
  | nil => rw [List.merge_right, List.merge_right]
  | cons y ys => rw [List.cons_merge_cons, if_pos (h y List.mem_cons_self)]

theorem merge_cons_right {y : α} {xs ys : List α} (h : ∀ x ∈ xs, le x y = false) :
    xs.merge (y :: ys) le = y :: xs.merge ys le := by
  cases xs with
  | nil => rw [List.nil_merge, List.nil_merge]
  | cons x xs =>
    rw [List.cons_merge_cons, if_neg (by rw [h x List.mem_cons_self]; exact Bool.false_ne_true)]

end Merge

namespace Entry

theorem command?_eq_some_iff {e : Entry} {c : Command} : e.command? = some c ↔ e = .decoded c := by
  cases e <;> simp [command?]

theorem skipped?_eq_some_iff {e : Entry} {c : SkippedCommand} :
    e.skipped? = some c ↔ e = .skipped c := by
  cases e <;> simp [skipped?]

/-- Whether an entry starts no later than another. -/
def startsBy (a b : Entry) : Bool := a.offset ≤ b.offset

/-- Entries in the order of their offsets are their decoded and their other entries merged. -/
theorem merge_filterMap {es : List Entry} (h : es.Pairwise fun a b => a.offset < b.offset) :
    ((es.filterMap command?).map .decoded).merge ((es.filterMap skipped?).map .skipped) startsBy
      = es := by
  induction h with
  | nil => exact List.nil_merge []
  | @cons e es hlt hes ih =>
    cases e with
    | decoded c =>
      have hbefore : ∀ e ∈ (es.filterMap skipped?).map .skipped,
          startsBy (.decoded c) e = true := by
        intro e he
        obtain ⟨s, hs, rfl⟩ := List.mem_map.1 he
        obtain ⟨e, hmem, hse⟩ := List.mem_filterMap.1 hs
        rw [skipped?_eq_some_iff.1 hse] at hmem
        exact decide_eq_true (Nat.le_of_lt (hlt _ hmem))
      exact (merge_cons_left hbefore).trans (congrArg _ ih)
    | skipped s =>
      have hbefore : ∀ e ∈ (es.filterMap command?).map .decoded,
          startsBy e (.skipped s) = false := by
        intro e he
        obtain ⟨c, hc, rfl⟩ := List.mem_map.1 he
        obtain ⟨e, hmem, hce⟩ := List.mem_filterMap.1 hc
        rw [command?_eq_some_iff.1 hce] at hmem
        exact decide_eq_false (Nat.not_le_of_lt (hlt _ hmem))
      exact (merge_cons_right hbefore).trans (congrArg _ ih)

end Entry

namespace Walk

variable {options : Options} {image : ByteArray} {count start : Nat}

/-- The decoded commands and those passed over, merged by offset. -/
def merged (w : Walk) : List Entry :=
  (w.commands.map .decoded).merge (w.skipped.map .skipped) Entry.startsBy

theorem mem_commands_iff {w : Walk} {c : Command} : c ∈ w.commands ↔ .decoded c ∈ w.entries := by
  rw [commands, List.mem_filterMap]
  constructor
  · rintro ⟨e, he, hc⟩
    rwa [← Entry.command?_eq_some_iff.1 hc]
  · intro h
    exact ⟨_, h, rfl⟩

theorem mem_skipped_iff {w : Walk} {s : SkippedCommand} :
    s ∈ w.skipped ↔ .skipped s ∈ w.entries := by
  rw [skipped, List.mem_filterMap]
  constructor
  · rintro ⟨e, he, hs⟩
    rwa [← Entry.skipped?_eq_some_iff.1 hs]
  · intro h
    exact ⟨_, h, rfl⟩

theorem length_commands_add_length_skipped (w : Walk) :
    w.commands.length + w.skipped.length = w.entries.length := by
  rw [commands, skipped]
  induction w.entries with
  | nil => rfl
  | cons e es ih =>
    cases e with
    | decoded c =>
      have hc : (Entry.decoded c).command? = some c := rfl
      have hs : (Entry.decoded c).skipped? = none := rfl
      rw [List.filterMap_cons_some hc, List.filterMap_cons_none hs, List.length_cons,
        List.length_cons, ← ih, Nat.add_right_comm]
    | skipped s =>
      have hc : (Entry.skipped s).command? = none := rfl
      have hs : (Entry.skipped s).skipped? = some s := rfl
      rw [List.filterMap_cons_none hc, List.filterMap_cons_some hs, List.length_cons,
        List.length_cons, ← ih, Nat.add_assoc]

theorem le_length_of_mem : ∀ e ∈ (run options image count start).entries, 8 ≤ e.length.toNat :=
  fun _ he => (entryAt_of_mem he).le_length

theorem pairwise_entries (h : (run options image count start).failure = none) :
    (run options image count start).entries.Pairwise fun a b => a.offset < b.offset :=
  (tiles_entries h).pairwise_offset le_length_of_mem

/-- Merging by offset gives the entries in the order in which they were met. -/
theorem merged_eq_entries (h : (run options image count start).failure = none) :
    (run options image count start).merged = (run options image count start).entries :=
  Entry.merge_filterMap (pairwise_entries h)

/-- The commands of each list are in the order of their offsets. -/
theorem pairwise_commands (h : (run options image count start).failure = none) :
    (run options image count start).commands.Pairwise
      fun a b => a.header.offset < b.header.offset := by
  refine List.Pairwise.filterMap _ (fun a b hlt c hc d hd => ?_) (pairwise_entries h)
  rw [Entry.command?_eq_some_iff.1 hc, Entry.command?_eq_some_iff.1 hd] at hlt
  exact hlt

theorem pairwise_skipped (h : (run options image count start).failure = none) :
    (run options image count start).skipped.Pairwise fun a b => a.offset < b.offset := by
  refine List.Pairwise.filterMap _ (fun a b hlt c hc d hd => ?_) (pairwise_entries h)
  rw [Entry.skipped?_eq_some_iff.1 hc, Entry.skipped?_eq_some_iff.1 hd] at hlt
  exact hlt

/-- A walk inside the image ends inside the image. -/
theorem cursor_le_size (h : (run options image count start).failure = none)
    (hstart : start ≤ image.size) : (run options image count start).cursor ≤ image.size :=
  (tiles_entries h).stop_le hstart fun _ he => (entryAt_of_mem he).end_le_size

/-- The commands of a walk over `count` commands of an image, from `start` on, tile their area. -/
structure Tiled (image : ByteArray) (count start : Nat) (w : Walk) : Prop where
  /-- The two lists together hold as many commands as asked for. -/
  length_merged : w.merged.length = count
  /-- Merged, they lie one after another without a gap from the start to the cursor. -/
  tiles : Tiles start w.merged w.cursor
  /-- A walk that starts inside the image ends inside the image. -/
  cursor_le_size : start ≤ image.size → w.cursor ≤ image.size
  /-- Each list is in the order of the offsets. -/
  pairwise_commands : w.commands.Pairwise fun a b => a.header.offset < b.header.offset
  pairwise_skipped : w.skipped.Pairwise fun a b => a.offset < b.offset
  /-- The first two words of a decoded command are its identifier and its length. -/
  words_command : ∀ c ∈ w.commands,
    word image c.header.offset = Coded.code c.id ∧
      word image (c.header.offset + 4) = c.header.length
  /-- The first two words of a command passed over are its own, and no kind has the identifier. -/
  words_skipped : ∀ s ∈ w.skipped,
    word image s.offset = s.raw ∧ word image (s.offset + 4) = s.length ∧
      (Coded.ofCode? s.raw : Option CommandId) = none
  /-- Every command takes eight bytes or more. -/
  le_length : ∀ e ∈ w.merged, 8 ≤ e.length.toNat
  /-- All of them together take at least eight times their count. -/
  start_add_le_cursor : start + 8 * count ≤ w.cursor

/-- **The load commands tile their area**, and there are as many in an image as its header says. -/
theorem commands_tile (options : Options) (image : ByteArray) :
    (∀ count start, (run options image count start).failure = none →
      (run options image count start).Tiled image count start) ∧
    ∀ img, Image.parse image options = .ok img →
      img.commandCount = img.header.commandCount.toNat := by
  constructor
  · intro count start h
    have hmerged := merged_eq_entries h
    have htiles := tiles_entries h
    have hbytes := htiles.le_stop le_length_of_mem
    rw [length_entries h] at hbytes
    exact {
      length_merged := by rw [hmerged, length_entries h]
      tiles := by rwa [hmerged]
      cursor_le_size := cursor_le_size h
      pairwise_commands := pairwise_commands h
      pairwise_skipped := pairwise_skipped h
      words_command := fun c hc => by
        have hentry := entryAt_of_mem (mem_commands_iff.1 hc)
        exact ⟨hentry.raw_eq.symm, hentry.length_eq.symm⟩
      words_skipped := fun s hs => by
        have hentry := entryAt_of_mem (mem_skipped_iff.1 hs)
        exact ⟨hentry.raw_eq.symm, hentry.length_eq.symm, hentry.ofCode?_raw⟩
      le_length := by
        rw [hmerged]
        exact le_length_of_mem
      start_add_le_cursor := hbytes }
  · intro img h
    obtain ⟨header, start, _, _, _, -, hfailure, -, -, -, rfl⟩ := Image.parse_eq_ok_iff.1 h
    exact (length_commands_add_length_skipped _).trans (length_entries hfailure)

/-- An image with a command of an unknown kind and one that holds the version of the source. -/
def unknownAndSource : ByteArray := ⟨#[
  0xCE, 0xFA, 0xED, 0xFE, 12, 0, 0, 0, 9, 0, 0, 0, 2, 0, 0, 0, 2, 0, 0, 0, 24, 0, 0, 0, 0, 0, 0, 0,
  0x7F, 0, 0, 0, 8, 0, 0, 0,
  0x2A, 0, 0, 0, 16, 0, 0, 0, 1, 2, 3, 4, 5, 6, 7, 8]⟩

theorem unknownAndSource_tile :
    (run {} unknownAndSource 2 28).failure = none ∧
      (run {} unknownAndSource 2 28).Tiled unknownAndSource 2 28 ∧
      ∃ img, Image.parse unknownAndSource = .ok img ∧
        img.commandCount = img.header.commandCount.toNat := by
  have hwalk : (run {} unknownAndSource 2 28).failure = none := rfl
  obtain ⟨img, himg⟩ : ∃ img, Image.parse unknownAndSource = .ok img := ⟨_, rfl⟩
  exact ⟨hwalk, (commands_tile {} unknownAndSource).1 2 28 hwalk, img, himg,
    (commands_tile {} unknownAndSource).2 img himg⟩

end Walk

end MachImage
