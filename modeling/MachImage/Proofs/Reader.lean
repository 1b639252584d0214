import MachImage.Proofs.Record

/-!
# When a reader succeeds

`r.Yields image pos a cursor` says that a reader that starts at `pos` gives `a`
and leaves the cursor at `cursor`.  For each way of making a reader there is
one equivalence that says when it yields what, so that a composed reader is
inverted by rewriting: `yields_bind` for two readers in sequence, `yields_take`
for a read of some bytes, `yields_within` for a read elsewhere and
`yields_times` for a table of entries of one size.  Most readers can yield only
one thing from a place; `yields_bind_of_iff` passes it on to what follows.  Where
it does not matter what is yielded, `exists_yields_bytes_map` and its like say
whether anything is.

Notes play no part here: a reader that only makes a note yields.
-/

namespace MachImage.Reader

variable {α β : Type} {image : ByteArray} {pos cursor : Nat}

/-- A reader succeeds with a value and leaves the cursor at a place. -/
def Yields (r : Reader α) (image : ByteArray) (pos : Nat) (a : α) (cursor : Nat) : Prop :=
  (r image pos).result = .ok a ∧ (r image pos).cursor = cursor

/-- A reader succeeds if it yields something. -/
theorem result_eq_ok_iff {r : Reader α} {a : α} :
    (r image pos).result = .ok a ↔ ∃ cursor, r.Yields image pos a cursor :=
  ⟨fun h => ⟨_, h, rfl⟩, fun ⟨_, h, _⟩ => h⟩

/-! ## Sequences -/

@[simp] theorem yields_pure {a b : α} :
    (Pure.pure a : Reader α).Yields image pos b cursor ↔ b = a ∧ cursor = pos := by
  simp only [Yields, pure_apply, Except.ok.injEq]
  constructor
  · rintro ⟨ha, hc⟩
    exact ⟨ha.symm, hc.symm⟩
  · rintro ⟨ha, hc⟩
    exact ⟨ha.symm, hc.symm⟩

theorem yields_bind {r : Reader α} {f : α → Reader β} {b : β} :
    (r >>= f).Yields image pos b cursor ↔
      ∃ a middle, r.Yields image pos a middle ∧ (f a).Yields image middle b cursor := by
  rcases hr : r image pos with ⟨e | a, middle, notes⟩
  · rw [Yields, bind_of_error hr]
    constructor
    · rintro ⟨h, -⟩
      cases h
    · rintro ⟨a, middle, ⟨h, -⟩, -⟩
      rw [hr] at h
      cases h
  · rw [Yields, bind_of_ok hr]
    constructor
    · intro h
      exact ⟨a, middle, by simp [Yields, hr], h⟩
    · rintro ⟨a', middle', ⟨h, h'⟩, hf⟩
      rw [hr] at h h'
      cases h
      cases h'
      exact hf

/-- What follows a reader that can yield only one thing. -/
theorem yields_bind_of_iff {r : Reader α} {f : α → Reader β} {b : β} {P : Prop} {x : α} {y : Nat}
    (hr : ∀ {a c}, r.Yields image pos a c ↔ P ∧ a = x ∧ c = y) :
    (r >>= f).Yields image pos b cursor ↔ P ∧ (f x).Yields image y b cursor := by
  rw [yields_bind]
  constructor
  · rintro ⟨a, middle, ha, h⟩
    obtain ⟨hP, rfl, rfl⟩ := hr.1 ha
    exact ⟨hP, h⟩
  · rintro ⟨hP, h⟩
    exact ⟨x, y, hr.2 ⟨hP, rfl, rfl⟩, h⟩

@[simp] theorem yields_fail {e : Error} {a : α} :
    ¬ (fail e : Reader α).Yields image pos a cursor := by
  rintro ⟨h, -⟩
  cases h

/-- A reader that runs unless a check fails. -/
theorem yields_unless {c : Prop} [Decidable c] {e : Error} {r : Reader α} {a : α} :
    (if c then fail e else r).Yields image pos a cursor ↔ ¬ c ∧ r.Yields image pos a cursor := by
  by_cases hc : c
  · rw [if_pos hc]
    constructor
    · intro h
      exact absurd h yields_fail
    · rintro ⟨hnot, -⟩
      exact absurd hc hnot
  · rw [if_neg hc]
    constructor
    · intro h
      exact ⟨hc, h⟩
    · rintro ⟨-, h⟩
      exact h

@[simp] theorem yields_note {n : Note} {a : Unit} :
    (note n).Yields image pos a cursor ↔ cursor = pos := by
  constructor
  · rintro ⟨-, hc⟩
    exact hc.symm
  · intro hc
    exact ⟨rfl, hc.symm⟩

@[simp] theorem yields_position {a : Nat} :
    position.Yields image pos a cursor ↔ a = pos ∧ cursor = pos := by
  simp only [Yields, position, Except.ok.injEq]
  constructor
  · rintro ⟨ha, hc⟩
    exact ⟨ha.symm, hc.symm⟩
  · rintro ⟨ha, hc⟩
    exact ⟨ha.symm, hc.symm⟩

@[simp] theorem yields_demand {o : Option α} {e : Error} {a : α} :
    (demand o e).Yields image pos a cursor ↔ o = some a ∧ cursor = pos := by
  cases o with
  | none =>
    constructor
    · intro h
      exact absurd h yields_fail
    · rintro ⟨hsome, -⟩
      cases hsome
  | some b =>
    rw [Option.some.injEq, eq_comm (a := b)]
    exact yields_pure

theorem yields_demand_bind {o : Option α} {e : Error} {f : α → Reader β} {b : β} :
    (demand o e >>= f).Yields image pos b cursor ↔
      ∃ a, o = some a ∧ (f a).Yields image pos b cursor := by
  rw [yields_bind]
  constructor
  · rintro ⟨a, middle, ha, h⟩
    obtain ⟨ho, rfl⟩ := yields_demand.1 ha
    exact ⟨a, ho, h⟩
  · rintro ⟨a, ho, h⟩
    exact ⟨a, pos, yields_demand.2 ⟨ho, rfl⟩, h⟩

theorem yields_note_bind {n : Note} {f : Unit → Reader β} {b : β} :
    (note n >>= f).Yields image pos b cursor ↔ (f ()).Yields image pos b cursor := by
  rw [yields_bind_of_iff (P := True) (x := ()) (y := pos)
    (fun {_ _} => yields_note.trans (by simp)), true_and]

theorem yields_position_bind {f : Nat → Reader β} {b : β} :
    (position >>= f).Yields image pos b cursor ↔ (f pos).Yields image pos b cursor := by
  rw [yields_bind_of_iff (P := True) (x := pos) (y := pos)
    (fun {_ _} => yields_position.trans (by simp)), true_and]

/-- A read elsewhere leaves the cursor where it was. -/
theorem yields_within {r : Reader α} {a : α} :
    (within r).Yields image pos a cursor ↔ (r image pos).result = .ok a ∧ cursor = pos := by
  rw [Yields]
  exact and_congr_right fun _ => eq_comm

/-! ## Reads -/

@[simp] theorem yields_seek {target : Nat} {a : Unit} :
    (seek target).Yields image pos a cursor ↔ target ≤ image.size ∧ cursor = target := by
  unfold Yields seek
  by_cases h : image.size < target
  · rw [if_pos h]
    constructor
    · rintro ⟨hok, -⟩
      cases hok
    · rintro ⟨hle, -⟩
      omega
  · rw [if_neg h]
    constructor
    · rintro ⟨-, hc⟩
      exact ⟨by omega, hc.symm⟩
    · rintro ⟨-, hc⟩
      exact ⟨rfl, hc.symm⟩

theorem yields_seek_bind {target : Nat} {f : Unit → Reader β} {b : β} :
    (seek target >>= f).Yields image pos b cursor ↔
      target ≤ image.size ∧ (f ()).Yields image target b cursor :=
  yields_bind_of_iff (x := ()) (fun {_ _} => yields_seek.trans (by simp))

theorem yields_take {n : Nat} {view : ByteArray → Nat → α} {a : α} :
    (take n view).Yields image pos a cursor ↔
      pos + n ≤ image.size ∧ a = view image pos ∧ cursor = pos + n := by
  unfold Yields take
  by_cases h : image.size < pos + n
  · rw [if_pos h]
    constructor
    · rintro ⟨hok, -⟩
      cases hok
    · rintro ⟨hle, -⟩
      omega
  · rw [if_neg h, Except.ok.injEq]
    constructor
    · rintro ⟨ha, hc⟩
      exact ⟨by omega, ha.symm, hc.symm⟩
    · rintro ⟨-, ha, hc⟩
      exact ⟨ha.symm, hc.symm⟩

@[simp] theorem yields_bytes {n : Nat} {bs : List UInt8} :
    (bytes n).Yields image pos bs cursor ↔
      pos + n ≤ image.size ∧ bs = window image pos n ∧ cursor = pos + n :=
  yields_take

@[simp] theorem yields_slice {n : Nat} {part : ByteArray} :
    (slice n).Yields image pos part cursor ↔
      pos + n ≤ image.size ∧ part = image.extract pos (pos + n) ∧ cursor = pos + n :=
  yields_take

/-- What is computed from the next `n` bytes. -/
theorem yields_bytes_map {n : Nat} {f : List UInt8 → α} {a : α} :
    (bytes n >>= fun bs => Pure.pure (f bs)).Yields image pos a cursor ↔
      pos + n ≤ image.size ∧ a = f (window image pos n) ∧ cursor = pos + n := by
  rw [yields_bind_of_iff yields_bytes, yields_pure]

@[simp] theorem yields_words {n : Nat} {ws : List UInt32} :
    (words n).Yields image pos ws cursor ↔
      pos + 4 * n ≤ image.size ∧ ws = LittleEndian.words (window image pos (4 * n)) ∧
        cursor = pos + 4 * n :=
  yields_bytes_map

@[simp] theorem yields_fixedName {n : Nat} {name : String} :
    (fixedName n).Yields image pos name cursor ↔
      pos + n ≤ image.size ∧ name = Name.ofField (window image pos n) ∧ cursor = pos + n :=
  yields_bytes_map

@[simp] theorem yields_record {r : Record} {v : r.Values} :
    (record r).Yields image pos v cursor ↔
      pos + r.size ≤ image.size ∧ v = r.layout.readAt image pos ∧ cursor = pos + r.size := by
  rw [← Record.decode_window]
  exact yields_bytes_map

/-- What is computed from a record. -/
theorem yields_record_map {r : Record} {f : r.Values → α} {a : α} :
    (record r >>= fun v => Pure.pure (f v)).Yields image pos a cursor ↔
      pos + r.size ≤ image.size ∧ a = f (r.layout.readAt image pos) ∧ cursor = pos + r.size := by
  rw [yields_bind_of_iff yields_record, yields_pure]

/-! ## Results

Where the cursor afterwards does not matter, the result alone says that a
reader succeeds. -/

theorem result_pure {a b : α} {image : ByteArray} {pos : Nat} :
    ((Pure.pure a : Reader α) image pos).result = .ok b ↔ b = a := by
  rw [pure_apply, Except.ok.injEq, eq_comm]

theorem result_bind_of_iff {r : Reader α} {f : α → Reader β} {b : β} {P : Prop} {x : α} {y : Nat}
    (hr : ∀ {a c}, r.Yields image pos a c ↔ P ∧ a = x ∧ c = y) :
    ((r >>= f) image pos).result = .ok b ↔ P ∧ (f x image y).result = .ok b := by
  rw [result_eq_ok_iff, result_eq_ok_iff, ← exists_and_left]
  exact exists_congr fun _ => yields_bind_of_iff hr

theorem result_unless {c : Prop} [Decidable c] {e : Error} {r : Reader α} {a : α} :
    ((if c then fail e else r) image pos).result = .ok a ↔ ¬ c ∧ (r image pos).result = .ok a := by
  rw [result_eq_ok_iff, result_eq_ok_iff, ← exists_and_left]
  exact exists_congr fun _ => yields_unless

theorem result_note_bind {n : Note} {f : Unit → Reader β} {b : β} :
    ((note n >>= f) image pos).result = .ok b ↔ (f () image pos).result = .ok b := by
  rw [result_eq_ok_iff, result_eq_ok_iff]
  exact exists_congr fun _ => yields_note_bind

theorem result_seek_bind {target : Nat} {f : Unit → Reader β} {b : β} :
    ((seek target >>= f) image pos).result = .ok b ↔
      target ≤ image.size ∧ (f () image target).result = .ok b :=
  result_bind_of_iff (x := ()) (fun {_ _} => yields_seek.trans (by simp))

/-! ## Whether anything is yielded -/

theorem exists_yields_bytes {n : Nat} :
    (∃ bs cursor, (bytes n).Yields image pos bs cursor) ↔ pos + n ≤ image.size := by
  constructor
  · rintro ⟨bs, cursor, h⟩
    exact (yields_bytes.1 h).1
  · intro hle
    exact ⟨_, _, yields_bytes.2 ⟨hle, rfl, rfl⟩⟩

/-- What is computed from some bytes is yielded if they are there. -/
theorem exists_yields_bytes_map {n : Nat} {f : List UInt8 → α} :
    (∃ a cursor, (bytes n >>= fun bs => Pure.pure (f bs)).Yields image pos a cursor) ↔
      pos + n ≤ image.size := by
  constructor
  · rintro ⟨a, cursor, h⟩
    exact (yields_bytes_map.1 h).1
  · intro hle
    exact ⟨_, _, yields_bytes_map.2 ⟨hle, rfl, rfl⟩⟩

/-- A look ahead succeeds if the read would. -/
theorem exists_yields_within {r : Reader α} :
    (∃ a cursor, (within r).Yields image pos a cursor) ↔
      ∃ a cursor, r.Yields image pos a cursor := by
  simp only [yields_within, exists_and_left, exists_eq, and_true, result_eq_ok_iff]

theorem exists_yields_seek {target : Nat} :
    (∃ u cursor, (seek target).Yields image pos u cursor) ↔ target ≤ image.size := by
  constructor
  · rintro ⟨u, cursor, h⟩
    exact (yields_seek.1 h).1
  · intro hle
    exact ⟨(), target, yields_seek.2 ⟨hle, rfl⟩⟩

/-! ## Tables -/

/-- A table of `n` entries that take `k` bytes each, read from within the image. -/
theorem yields_times {r : Reader α} {k : Nat} {f : Nat → α}
    (hr : ∀ {pos a cursor}, r.Yields image pos a cursor ↔
      pos + k ≤ image.size ∧ a = f pos ∧ cursor = pos + k)
    {n : Nat} {as : List α} (hpos : pos ≤ image.size) :
    (times n r).Yields image pos as cursor ↔
      pos + k * n ≤ image.size ∧ as = (List.range n).map (fun i => f (pos + k * i)) ∧
        cursor = pos + k * n := by
  induction n generalizing pos as cursor with
  | zero =>
    rw [times, show (pure [] : Reader (List α)) = Pure.pure [] from rfl, yields_pure]
    constructor
    · intro h
      exact ⟨hpos, h⟩
    · rintro ⟨-, h⟩
      exact h
  | succ n ih =>
    have hmul : pos + k * (n + 1) = pos + k + k * n := by rw [Nat.mul_succ]; omega
    have hlist : (List.range (n + 1)).map (fun i => f (pos + k * i))
        = f pos :: (List.range n).map (fun i => f (pos + k + k * i)) := by
      rw [List.range_succ_eq_map, List.map_cons, List.map_map]
      refine List.cons_eq_cons.mpr ⟨rfl, List.map_congr_left fun i _ => ?_⟩
      rw [Function.comp_apply, Nat.succ_eq_add_one, Nat.mul_succ, Nat.add_comm (k * i),
        ← Nat.add_assoc]
    have hfirst : (times (n + 1) r).Yields image pos as cursor ↔
        pos + k ≤ image.size ∧
          (times n r >>= fun rest => Pure.pure (f pos :: rest)).Yields image (pos + k) as cursor :=
      yields_bind_of_iff hr
    rw [hfirst, hmul, hlist]
    constructor
    · rintro ⟨hle, h⟩
      obtain ⟨hle', h⟩ := (yields_bind_of_iff fun {_ _} => ih hle).1 h
      exact ⟨hle', yields_pure.1 h⟩
    · rintro ⟨hle', h⟩
      have hle : pos + k ≤ image.size := Nat.le_trans (Nat.le_add_right _ _) hle'
      exact ⟨hle, (yields_bind_of_iff fun {_ _} => ih hle).2 ⟨hle', yields_pure.2 h⟩⟩

end MachImage.Reader
