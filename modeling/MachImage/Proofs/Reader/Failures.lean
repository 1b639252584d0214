import MachImage.Proofs.Reader

/-!
# How readers fail

`r.Fails image pos e cursor` says that a reader that starts at `pos` fails with
`e` and where that leaves the cursor.  It is the counterpart of `Yields`, and
again every way of making a reader comes with a lemma, so that the failures of
a composed reader are found by rewriting.  `fails_bind` is where the two meet:
two readers in sequence fail where the first does, or where the second does
after what the first yields.

Most reads leave the cursor where it was when they fail; `Rests` says this of a
reader.
-/

namespace MachImage.Reader

variable {α β : Type} {image : ByteArray} {pos cursor : Nat} {e : Error}

/-- A reader fails with a cause and leaves the cursor at a place. -/
def Fails (r : Reader α) (image : ByteArray) (pos : Nat) (e : Error) (cursor : Nat) : Prop :=
  (r image pos).result = .error e ∧ (r image pos).cursor = cursor

/-- A reader has a cause of failure as its result if it fails with it somewhere. -/
theorem result_eq_error_iff {r : Reader α} :
    (r image pos).result = .error e ↔ ∃ cursor, r.Fails image pos e cursor :=
  ⟨fun h => ⟨_, h, rfl⟩, fun ⟨_, h, _⟩ => h⟩

/-- A reader succeeds or fails. -/
theorem yields_or_fails (r : Reader α) (image : ByteArray) (pos : Nat) :
    (∃ a cursor, r.Yields image pos a cursor) ∨ ∃ e cursor, r.Fails image pos e cursor := by
  cases h : (r image pos).result with
  | ok a => exact Or.inl ⟨a, _, h, rfl⟩
  | error e => exact Or.inr ⟨e, _, h, rfl⟩

/-! ## Sequences -/

theorem Fails.not_yields {r : Reader α} {a : α} {cursor' : Nat} (h : r.Fails image pos e cursor) :
    ¬ r.Yields image pos a cursor' := by
  rintro ⟨hok, -⟩
  rw [h.1] at hok
  cases hok

@[simp] theorem not_fails_pure {a : α} : ¬ (Pure.pure a : Reader α).Fails image pos e cursor := by
  rintro ⟨h, -⟩
  cases h

theorem fails_bind {r : Reader α} {f : α → Reader β} :
    (r >>= f).Fails image pos e cursor ↔
      r.Fails image pos e cursor ∨
        ∃ a middle, r.Yields image pos a middle ∧ (f a).Fails image middle e cursor := by
  rcases hr : r image pos with ⟨e' | a, middle, notes⟩
  · rw [Fails, bind_of_error hr, Fails, hr]
    simp only [Except.error.injEq]
    constructor
    · intro h
      exact Or.inl h
    · rintro (h | ⟨a, middle', ⟨hok, -⟩, -⟩)
      · exact h
      · rw [hr] at hok
        cases hok
  · rw [Fails, bind_of_ok hr, Fails, hr]
    constructor
    · intro h
      exact Or.inr ⟨a, middle, by simp [Yields, hr], h⟩
    · rintro (⟨h, -⟩ | ⟨a', middle', ⟨hok, hcursor⟩, hf⟩)
      · cases h
      · rw [hr] at hok hcursor
        cases hok
        cases hcursor
        exact hf

/-- What is computed from the value of a reader fails where the reader does. -/
theorem fails_map {r : Reader α} {f : α → β} :
    (r >>= fun a => Pure.pure (f a)).Fails image pos e cursor ↔ r.Fails image pos e cursor := by
  rw [fails_bind]
  simp only [not_fails_pure, and_false, exists_false, or_false]

@[simp] theorem fails_fail {e' : Error} :
    (fail e' : Reader α).Fails image pos e cursor ↔ e = e' ∧ cursor = pos := by
  simp only [Fails, fail, Except.error.injEq]
  exact and_congr eq_comm eq_comm

/-- A reader that runs unless a check fails. -/
theorem fails_unless {c : Prop} [Decidable c] {e' : Error} {r : Reader α} :
    (if c then fail e' else r).Fails image pos e cursor ↔
      c ∧ e = e' ∧ cursor = pos ∨ ¬ c ∧ r.Fails image pos e cursor := by
  by_cases hc : c
  · simp [hc]
  · simp [hc]

@[simp] theorem not_fails_note {n : Note} : ¬ (note n).Fails image pos e cursor := by
  rintro ⟨h, -⟩
  cases h

@[simp] theorem not_fails_position : ¬ position.Fails image pos e cursor := by
  rintro ⟨h, -⟩
  cases h

@[simp] theorem fails_demand {o : Option α} {e' : Error} :
    (demand o e').Fails image pos e cursor ↔ o = none ∧ e = e' ∧ cursor = pos := by
  cases o with
  | none => simp [demand]
  | some a => exact ⟨fun h => absurd h not_fails_pure, fun ⟨h, _⟩ => by cases h⟩

theorem fails_demand_bind {o : Option α} {e' : Error} {f : α → Reader β} :
    (demand o e' >>= f).Fails image pos e cursor ↔
      (o = none ∧ e = e' ∧ cursor = pos) ∨ ∃ a, o = some a ∧ (f a).Fails image pos e cursor := by
  rw [fails_bind, fails_demand]
  apply or_congr_right
  constructor
  · rintro ⟨a, middle, ha, h⟩
    obtain ⟨ho, rfl⟩ := yields_demand.1 ha
    exact ⟨a, ho, h⟩
  · rintro ⟨a, ho, h⟩
    exact ⟨a, pos, yields_demand.2 ⟨ho, rfl⟩, h⟩

/-- A read elsewhere leaves the cursor where it was, failing or not. -/
theorem fails_within {r : Reader α} :
    (within r).Fails image pos e cursor ↔ (r image pos).result = .error e ∧ cursor = pos :=
  and_congr_right fun _ => eq_comm

/-! ## Reads -/

@[simp] theorem fails_seek {target : Nat} :
    (seek target).Fails image pos e cursor ↔
      image.size < target ∧ e = .bufferTooSmall target image.size ∧ cursor = pos := by
  unfold Fails seek
  by_cases h : image.size < target
  · rw [if_pos h, Except.error.injEq, and_iff_right h]
    exact and_congr eq_comm eq_comm
  · simp [h]

theorem fails_take {n : Nat} {view : ByteArray → Nat → α} :
    (take n view).Fails image pos e cursor ↔
      image.size < pos + n ∧ e = .bufferTooSmall (min (pos + n) lastPosition) image.size ∧
        cursor = pos := by
  unfold Fails take
  by_cases h : image.size < pos + n
  · rw [if_pos h, Except.error.injEq, and_iff_right h]
    exact and_congr eq_comm eq_comm
  · simp [h]

/-- What is computed from the next `n` bytes. -/
theorem fails_bytes_map {n : Nat} {f : List UInt8 → α} :
    (bytes n >>= fun bs => Pure.pure (f bs)).Fails image pos e cursor ↔
      image.size < pos + n ∧ e = .bufferTooSmall (min (pos + n) lastPosition) image.size ∧
        cursor = pos :=
  fails_map.trans fails_take

theorem fails_scan {find : List UInt8 → Option (α × Nat)} {cause : Nat → Error} :
    (scan find cause).Fails image pos e cursor ↔
      find (windowFrom image pos) = none ∧ e = cause pos ∧ cursor = pos := by
  unfold Fails scan
  cases find (windowFrom image pos) with
  | none =>
    simp only [Except.error.injEq, true_and]
    exact and_congr eq_comm eq_comm
  | some found => simp

theorem yields_scan {find : List UInt8 → Option (α × Nat)} {cause : Nat → Error} {a : α} :
    (scan find cause).Yields image pos a cursor ↔
      ∃ used, find (windowFrom image pos) = some (a, used) ∧ cursor = pos + used := by
  unfold Yields scan
  cases find (windowFrom image pos) with
  | none => simp
  | some found =>
    obtain ⟨b, n⟩ := found
    simp only [Except.ok.injEq, Option.some.injEq, Prod.mk.injEq]
    constructor
    · rintro ⟨rfl, rfl⟩
      exact ⟨n, ⟨rfl, rfl⟩, rfl⟩
    · rintro ⟨used, ⟨rfl, rfl⟩, rfl⟩
      exact ⟨rfl, rfl⟩

/-- A scan succeeds if it finds anything. -/
theorem exists_yields_scan {find : List UInt8 → Option (α × Nat)} {cause : Nat → Error} :
    (∃ a cursor, (scan find cause).Yields image pos a cursor) ↔
      ∃ n a, find (windowFrom image pos) = some (a, n) := by
  simp only [yields_scan]
  constructor
  · rintro ⟨a, cursor, n, hfound, -⟩
    exact ⟨n, a, hfound⟩
  · rintro ⟨n, a, hfound⟩
    exact ⟨a, pos + n, n, hfound, rfl⟩

/-! ## Readers that do not move when they fail -/

/-- Every failure leaves the cursor where it was. -/
def Rests (r : Reader α) : Prop :=
  ∀ image pos e cursor, r.Fails image pos e cursor → cursor = pos

theorem rests_take (n : Nat) (view : ByteArray → Nat → α) : (take n view).Rests := by
  intro image pos e cursor h
  exact (fails_take.1 h).2.2

theorem rests_scan (find : List UInt8 → Option (α × Nat)) (cause : Nat → Error) :
    (scan find cause).Rests := by
  intro image pos e cursor h
  exact (fails_scan.1 h).2.2

theorem rests_within (r : Reader α) : (within r).Rests := by
  intro image pos e cursor h
  exact (fails_within.1 h).2

theorem Rests.map {r : Reader α} (hr : r.Rests) (f : α → β) :
    (r >>= fun a => Pure.pure (f a)).Rests := by
  intro image pos e cursor h
  exact hr image pos e cursor (fails_map.1 h)

end MachImage.Reader
