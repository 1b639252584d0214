import MachImage.Proofs.Leb128.Value
import MachImage.Proofs.Reader.Failures

/-!
# What a read uses

A read that succeeds owes its value to the bytes it looked at.
`r.Uses reach moved` says how many of the bytes ahead of the cursor these are
and over how many of them the cursor moves: the same bytes at any place of any
image give the same value, whatever lies before and behind them.  Both counts
may depend on the bytes ahead, since a number or a name ends where its bytes say.

The reads of a fixed count of bytes use that many; `Uses.bind` puts two of them
together.  A read of what a scan finds uses what the scan took, if the scan ends
by itself (`EndsAt`).  All of these are `Atomic`: when they fail they have not
moved.  A scan succeeds just where what it looks for ends inside the image
(`exists_yields_terminatedName`, `exists_yields_scan_leb`).
-/

namespace MachImage

/-- The bytes ahead are those of a window and what follows it. -/
theorem windowFrom_eq_append {image : ByteArray} {pos n : Nat} (h : pos + n ≤ image.size) :
    windowFrom image pos = window image pos n ++ windowFrom image (pos + n) := by
  have hsum : image.size - pos = n + (image.size - (pos + n)) := by omega
  rw [windowFrom, windowFrom, window_append, hsum]

theorem le_length_windowFrom {image : ByteArray} {pos n : Nat} (hpos : pos ≤ image.size) :
    n ≤ (windowFrom image pos).length ↔ pos + n ≤ image.size := by
  rw [length_windowFrom, Nat.le_sub_iff_add_le' hpos]

/-- The first bytes ahead are a window. -/
theorem take_windowFrom {image : ByteArray} {pos n : Nat} (h : n ≤ image.size - pos) :
    (windowFrom image pos).take n = window image pos n :=
  take_window image pos h

/-- Windows that are the same are the same in each of their parts. -/
theorem window_eq_of_window_eq {image other : ByteArray} {pos place n m k : Nat}
    (h : window other place n = window image pos n) (hle : m + k ≤ n) :
    window other (place + m) k = window image (pos + m) k := by
  have hpart : ∀ (bytes : ByteArray) (start : Nat),
      window bytes (start + m) k = ((window bytes start n).drop m).take k := by
    intro bytes start
    rw [drop_window, take_window _ _ (by omega)]
  rw [hpart, hpart, h]

/-! ## Scans that end by themselves -/

/-- What is found at the front of a list is found in its first `extent` bytes, and no matter what
comes after them. -/
def EndsAt {α : Type} (find : List UInt8 → Option (α × Nat)) (extent : List UInt8 → Nat) : Prop :=
  ∀ {bs a n}, find bs = some (a, n) →
    n = extent bs ∧ n ≤ bs.length ∧ ∀ rest, find (bs.take n ++ rest) = some (a, n)

namespace Leb128

/-- How many bytes a number takes: those up to the first that has its top bit clear. -/
def extent (bs : List UInt8) : Nat := (bs.takeWhile (0x80 ≤ ·)).length + 1

/-- The groups of a number end where its bytes say, and do not depend on what comes after. -/
theorem groupsFrom_take_append {used : Nat} {bits : UInt64} {bs : List UInt8} {g : Groups}
    (h : groupsFrom used bits bs = some g) :
    g.used = used + extent bs ∧
      ∀ rest, groupsFrom used bits (bs.take (extent bs) ++ rest) = some g := by
  induction bs generalizing used bits with
  | nil => cases h
  | cons b bs ih =>
    by_cases hused : 64 ≤ 7 * used
    · rw [groupsFrom, if_pos hused] at h
      cases h
    · have hlt : 7 * used < 64 := Nat.lt_of_not_le hused
      rw [groupsFrom_cons hlt] at h
      by_cases hlast : b < 0x80
      · have hextent : extent (b :: bs) = 1 := by
          simp [extent, UInt8.not_le.2 hlast]
        rw [if_pos hlast] at h
        rw [hextent]
        refine ⟨by cases h; rfl, fun rest => ?_⟩
        show groupsFrom used bits (b :: rest) = some g
        rw [groupsFrom_cons hlt, if_pos hlast]
        exact h
      · have hextent : extent (b :: bs) = extent bs + 1 := by
          simp [extent, UInt8.not_lt.1 hlast]
        rw [if_neg hlast] at h
        obtain ⟨hg, hrest⟩ := ih h
        rw [hextent]
        refine ⟨by omega, fun rest => ?_⟩
        show groupsFrom used bits (b :: (bs.take (extent bs) ++ rest)) = some g
        rw [groupsFrom_cons hlt, if_neg hlast]
        exact hrest rest

/-- What is computed from the groups of a number ends where the number does. -/
theorem endsAt_groups {α : Type} (f : Groups → α) :
    EndsAt (fun bs => (groups bs).map fun g => (f g, g.used)) extent := by
  intro bs a n h
  obtain ⟨g, hg, hpair⟩ := Option.map_eq_some_iff.1 h
  cases hpair
  obtain ⟨hused, hrest⟩ := groupsFrom_take_append hg
  rw [Nat.zero_add] at hused
  refine ⟨hused, (groups_used hg).2, fun rest => ?_⟩
  simp only [groups, hused, hrest rest, Option.map_some]

theorem findIdx_add_one_eq_extent (bs : List UInt8) : bs.findIdx (· < 0x80) + 1 = extent bs := by
  rw [extent, List.takeWhile_eq_take_findIdx_not, List.length_take,
    Nat.min_eq_left List.findIdx_le_length]
  simp only [← decide_not, UInt8.not_le]

/-- There is a number at the front of a list if it ends inside the list, and in time. -/
theorem exists_endsAtByte_iff {bs : List UInt8} :
    (∃ n, EndsAtByte bs n) ↔ extent bs ≤ bs.length ∧ extent bs ≤ 10 := by
  rw [← findIdx_add_one_eq_extent]
  constructor
  · rintro ⟨n, i, hi, hfind, rfl⟩
    obtain ⟨hlt, rfl⟩ := List.findIdx?_eq_some_iff_findIdx_eq.1 hfind
    exact ⟨hlt, hi⟩
  · rintro ⟨hlt, hten⟩
    exact ⟨_, _, hten, List.findIdx?_eq_some_iff_findIdx_eq.2 ⟨hlt, rfl⟩, rfl⟩

theorem endsAt_unsigned? : EndsAt unsigned? extent := by
  rw [show unsigned? = unsignedByGroups? from funext unsigned?_eq]
  exact endsAt_groups Groups.bits

theorem endsAt_signed? : EndsAt signed? extent := by
  rw [show signed? = signedByGroups? from funext signed?_eq]
  exact endsAt_groups fun g => g.signExtended.toInt64

end Leb128

namespace Name

/-- A name and its zero byte, whatever follows. -/
theorem terminated?_append_zero {s : List UInt8} (h : (0 : UInt8) ∉ s) (rest : List UInt8) :
    terminated? (s ++ 0 :: rest) = some (Utf8.decodeLossy s, s.length + 1) := by
  have hbefore : beforeZero (s ++ 0 :: rest) = s := beforeZero_append_zero h rest
  rw [terminated?, zeroIndex, ofField, hbefore, if_pos]
  simp

/-- A name takes the bytes before the first zero byte, and that byte. -/
theorem endsAt_terminated? : EndsAt terminated? fun bs => zeroIndex bs + 1 := by
  intro bs a n h
  by_cases hzero : zeroIndex bs < bs.length
  · obtain ⟨s, t, rfl, hs⟩ := List.eq_append_cons_of_mem (zeroIndex_lt_length_iff.1 hzero)
    have hindex : zeroIndex (s ++ 0 :: t) = s.length := by
      rw [zeroIndex, beforeZero_append_zero hs]
    rw [terminated?_append_zero hs] at h
    cases h
    refine ⟨congrArg (· + 1) hindex.symm, by simp, fun rest => ?_⟩
    have htake : (s ++ 0 :: t).take (s.length + 1) = s ++ [0] := by
      rw [List.take_length_add_append, List.take_succ_cons, List.take_zero]
    rw [htake, List.append_assoc]
    exact terminated?_append_zero hs rest
  · rw [terminated?, if_neg hzero] at h
    cases h

theorem exists_terminated?_iff {bs : List UInt8} :
    (∃ n name, terminated? bs = some (name, n)) ↔ zeroIndex bs + 1 ≤ bs.length := by
  constructor
  · rintro ⟨n, name, hfound⟩
    exact (terminated?_eq_some_iff.1 hfound).1
  · intro hlt
    exact ⟨_, _, terminated?_eq_some_iff.2 ⟨hlt, rfl, rfl⟩⟩

end Name

namespace Reader

variable {α β : Type}

/-! ## Readers -/

/-- What a reader yields it has from the next `reach` bytes, and it moves over `moved` of them. -/
structure Uses (r : Reader α) (reach moved : List UInt8 → Nat) : Prop where
  /-- It moves over nothing but what it has used. -/
  moved_le : ∀ {image pos a cursor}, r.Yields image pos a cursor →
    moved (windowFrom image pos) ≤ reach (windowFrom image pos)
  /-- The bytes are inside the image. -/
  inside : ∀ {image pos a cursor}, pos ≤ image.size → r.Yields image pos a cursor →
    pos + reach (windowFrom image pos) ≤ image.size
  cursor_eq : ∀ {image pos a cursor}, pos ≤ image.size → r.Yields image pos a cursor →
    cursor = pos + moved (windowFrom image pos)
  /-- Where another image has the same bytes, the same is yielded. -/
  elsewhere : ∀ {image pos a cursor other place}, pos ≤ image.size → r.Yields image pos a cursor →
    place + reach (windowFrom image pos) ≤ other.size →
    window other place (reach (windowFrom image pos)) =
      window image pos (reach (windowFrom image pos)) →
    r.Yields other place a (place + moved (windowFrom image pos))

/-- A reader that moves over what it has used stays inside the image. -/
theorem Uses.cursor_le {r : Reader α} {reach moved : List UInt8 → Nat} (hr : r.Uses reach moved)
    {image : ByteArray} {pos cursor : Nat} {a : α} (hpos : pos ≤ image.size)
    (h : r.Yields image pos a cursor) : cursor ≤ image.size := by
  have hinside := hr.inside hpos h
  have hmoved := hr.moved_le h
  have hcursor := hr.cursor_eq hpos h
  omega

theorem uses_pure (a : α) : (Pure.pure a : Reader α).Uses (fun _ => 0) fun _ => 0 where
  moved_le _ := Nat.le_refl 0
  inside hpos _ := hpos
  cursor_eq _ h := (yields_pure.1 h).2
  elsewhere _ h _ _ := yields_pure.2 ⟨(yields_pure.1 h).1, rfl⟩

theorem uses_note (n : Note) : (note n).Uses (fun _ => 0) fun _ => 0 where
  moved_le _ := Nat.le_refl 0
  inside hpos _ := hpos
  cursor_eq _ h := yields_note.1 h
  elsewhere _ _ _ _ := yields_note.2 rfl

theorem uses_demand (o : Option α) (e : Error) : (demand o e).Uses (fun _ => 0) fun _ => 0 where
  moved_le _ := Nat.le_refl 0
  inside hpos _ := hpos
  cursor_eq _ h := (yields_demand.1 h).2
  elsewhere _ h _ _ := yields_demand.2 ⟨(yields_demand.1 h).1, rfl⟩

theorem uses_bytes (n : Nat) : (bytes n).Uses (fun _ => n) fun _ => n where
  moved_le _ := Nat.le_refl n
  inside _ h := (yields_bytes.1 h).1
  cursor_eq _ h := (yields_bytes.1 h).2.2
  elsewhere := by
    intro image pos a cursor other place _ h hle hwindow
    obtain ⟨-, rfl, -⟩ := yields_bytes.1 h
    exact yields_bytes.2 ⟨hle, hwindow.symm, rfl⟩

/-- A scan uses the bytes that it takes. -/
theorem uses_scan {find : List UInt8 → Option (α × Nat)} {extent : List UInt8 → Nat}
    (hfind : EndsAt find extent) (cause : Nat → Error) : (scan find cause).Uses extent extent where
  moved_le _ := Nat.le_refl _
  inside := by
    intro image pos a cursor hpos h
    obtain ⟨n, hfound, -⟩ := yields_scan.1 h
    obtain ⟨hn, hlength, -⟩ := hfind hfound
    rw [length_windowFrom] at hlength
    omega
  cursor_eq := by
    intro image pos a cursor _ h
    obtain ⟨n, hfound, hcursor⟩ := yields_scan.1 h
    rw [hcursor, (hfind hfound).1]
  elsewhere := by
    intro image pos a cursor other place _ h hle hwindow
    obtain ⟨n, hfound, -⟩ := yields_scan.1 h
    obtain ⟨hn, hlength, hrest⟩ := hfind hfound
    rw [← hn] at hle hwindow ⊢
    rw [length_windowFrom] at hlength
    have hfront : windowFrom other place =
        (windowFrom image pos).take n ++ windowFrom other (place + n) := by
      rw [windowFrom_eq_append hle, hwindow, take_windowFrom hlength]
    exact yields_scan.2 ⟨n, by rw [hfront]; exact hrest _, rfl⟩

/-- What is computed from the value of a reader uses the same bytes. -/
theorem Uses.map {r : Reader α} {reach moved : List UInt8 → Nat} (hr : r.Uses reach moved)
    (f : α → β) : (r >>= fun a => Pure.pure (f a)).Uses reach moved := by
  have hmap : ∀ {image pos b cursor},
      (r >>= fun a => Pure.pure (f a)).Yields image pos b cursor ↔
        ∃ a, r.Yields image pos a cursor ∧ b = f a := by
    intro image pos b cursor
    rw [yields_bind]
    constructor
    · rintro ⟨a, middle, ha, hb⟩
      obtain ⟨rfl, rfl⟩ := yields_pure.1 hb
      exact ⟨a, ha, rfl⟩
    · rintro ⟨a, ha, rfl⟩
      exact ⟨a, cursor, ha, yields_pure.2 ⟨rfl, rfl⟩⟩
  constructor
  · intro image pos b cursor h
    obtain ⟨a, ha, -⟩ := hmap.1 h
    exact hr.moved_le ha
  · intro image pos b cursor hpos h
    obtain ⟨a, ha, -⟩ := hmap.1 h
    exact hr.inside hpos ha
  · intro image pos b cursor hpos h
    obtain ⟨a, ha, -⟩ := hmap.1 h
    exact hr.cursor_eq hpos ha
  · intro image pos b cursor other place hpos h hle hwindow
    obtain ⟨a, ha, hb⟩ := hmap.1 h
    exact hmap.2 ⟨a, hr.elsewhere hpos ha hle hwindow, hb⟩

/-- A look ahead uses the same bytes and moves over none of them. -/
theorem Uses.within {r : Reader α} {reach moved : List UInt8 → Nat} (hr : r.Uses reach moved) :
    (within r).Uses reach fun _ => 0 := by
  constructor
  · intro image pos a cursor _
    exact Nat.zero_le _
  · intro image pos a cursor hpos h
    obtain ⟨middle, ha⟩ := result_eq_ok_iff.1 (yields_within.1 h).1
    exact hr.inside hpos ha
  · intro image pos a cursor _ h
    exact (yields_within.1 h).2
  · intro image pos a cursor other place hpos h hle hwindow
    obtain ⟨middle, ha⟩ := result_eq_ok_iff.1 (yields_within.1 h).1
    exact yields_within.2 ⟨result_eq_ok_iff.2 ⟨_, hr.elsewhere hpos ha hle hwindow⟩, rfl⟩

/-- Two readers that each use a fixed count of bytes use together those of the first and those of
the second behind what the first moved over. -/
theorem Uses.bind {r : Reader α} {f : α → Reader β} {n m n' m' : Nat}
    (hr : r.Uses (fun _ => n) fun _ => m) (hf : ∀ a, (f a).Uses (fun _ => n') fun _ => m') :
    (r >>= f).Uses (fun _ => max n (m + n')) fun _ => m + m' := by
  constructor
  · intro image pos b cursor h
    obtain ⟨a, middle, ha, hb⟩ := yields_bind.1 h
    have hfirst := hr.moved_le ha
    have hsecond := (hf a).moved_le hb
    omega
  · intro image pos b cursor hpos h
    obtain ⟨a, middle, ha, hb⟩ := yields_bind.1 h
    have hfirst := hr.inside hpos ha
    have hmiddle := hr.cursor_le hpos ha
    have hsecond := (hf a).inside hmiddle hb
    have hmoved := hr.cursor_eq hpos ha
    omega
  · intro image pos b cursor hpos h
    obtain ⟨a, middle, ha, hb⟩ := yields_bind.1 h
    rw [(hf a).cursor_eq (hr.cursor_le hpos ha) hb, hr.cursor_eq hpos ha, Nat.add_assoc]
  · intro image pos b cursor other place hpos h hle hwindow
    obtain ⟨a, middle, ha, hb⟩ := yields_bind.1 h
    have hmiddle := hr.cursor_le hpos ha
    have hthere : r.Yields other place a (place + m) := by
      apply hr.elsewhere hpos ha (by omega)
      have hpart := window_eq_of_window_eq hwindow (m := 0) (k := n) (by omega)
      simpa using hpart
    obtain rfl : middle = pos + m := hr.cursor_eq hpos ha
    have hnext : (f a).Yields other (place + m) b (place + m + m') := by
      apply (hf a).elsewhere hmiddle hb (by omega)
      exact window_eq_of_window_eq hwindow (by omega)
    rw [← Nat.add_assoc]
    exact yields_bind.2 ⟨a, place + m, hthere, hnext⟩

/-- What comes after a reader that looks at nothing uses what it would without it. -/
theorem Uses.bind_of_still {r : Reader α} {f : α → Reader β} {n m : Nat}
    (hr : r.Uses (fun _ => 0) fun _ => 0) (hf : ∀ a, (f a).Uses (fun _ => n) fun _ => m) :
    (r >>= f).Uses (fun _ => n) fun _ => m := by
  simpa using hr.bind hf

/-! ## Reads of a single thing -/

/-- A read that takes what it needs or fails and leaves the cursor where it was. -/
structure Atomic (r : Reader α) (reach moved : List UInt8 → Nat) : Prop
    extends Uses r reach moved where
  rests : r.Rests

theorem Atomic.map {r : Reader α} {reach moved : List UInt8 → Nat} (hr : r.Atomic reach moved)
    (f : α → β) : (r >>= fun a => Pure.pure (f a)).Atomic reach moved :=
  ⟨hr.toUses.map f, hr.rests.map f⟩

theorem atomic_bytes (n : Nat) : (bytes n).Atomic (fun _ => n) fun _ => n :=
  ⟨uses_bytes n, rests_take n _⟩

theorem atomic_peek (n : Nat) : (peek n).Atomic (fun _ => n) fun _ => 0 :=
  ⟨(uses_bytes n).within, rests_within _⟩

theorem atomic_record (r : Record) : (record r).Atomic (fun _ => r.size) fun _ => r.size :=
  (atomic_bytes r.size).map r.decode

theorem atomic_scan {find : List UInt8 → Option (α × Nat)} {extent : List UInt8 → Nat}
    (hfind : EndsAt find extent) (cause : Nat → Error) :
    (scan find cause).Atomic extent extent :=
  ⟨uses_scan hfind cause, rests_scan find cause⟩

/-! ## Whether a scan succeeds -/

section Scans

variable {image : ByteArray} {pos : Nat}

/-- A name is read if its zero byte is inside the image. -/
theorem exists_yields_terminatedName (hpos : pos ≤ image.size) :
    (∃ name cursor, terminatedName.Yields image pos name cursor) ↔
      pos + (Name.zeroIndex (windowFrom image pos) + 1) ≤ image.size := by
  rw [terminatedName, exists_yields_scan, Name.exists_terminated?_iff, le_length_windowFrom hpos]

/-- A number of either kind is read if its last byte is inside the image and among the first ten. -/
theorem exists_yields_scan_leb {find : List UInt8 → Option (α × Nat)} {cause : Nat → Error}
    (hpos : pos ≤ image.size)
    (hfind : ∀ bs n, (∃ v, find bs = some (v, n)) ↔ Leb128.EndsAtByte bs n) :
    (∃ v cursor, (scan find cause).Yields image pos v cursor) ↔
      pos + Leb128.extent (windowFrom image pos) ≤ image.size ∧
        Leb128.extent (windowFrom image pos) ≤ 10 := by
  rw [exists_yields_scan, exists_congr (hfind _), Leb128.exists_endsAtByte_iff,
    le_length_windowFrom hpos]

end Scans

end Reader

end MachImage
