import MachImage.Proofs.Reader.Failures

/-!
# Where readers leave the cursor

`r.Stays image pos lo hi` says that a reader that starts at `pos` leaves the cursor
between `lo` and `hi`, whether it succeeds or fails.  It is put together along the
ways of making a reader: a read elsewhere and everything that reads nothing leave
the cursor where it was, a read of some bytes and a jump move it inside the image,
and two readers in sequence stay where both do (`Stays.bind`).
-/

namespace MachImage.Reader

variable {α β : Type} {image : ByteArray} {pos lo hi : Nat}

/-- A reader that starts at `pos` leaves the cursor between `lo` and `hi`, failing or not. -/
def Stays (r : Reader α) (image : ByteArray) (pos lo hi : Nat) : Prop :=
  lo ≤ (r image pos).cursor ∧ (r image pos).cursor ≤ hi

namespace Stays

theorem of_yields {r : Reader α} (h : r.Stays image pos lo hi) {a : α} {cursor : Nat}
    (hr : r.Yields image pos a cursor) : lo ≤ cursor ∧ cursor ≤ hi :=
  hr.2 ▸ h

theorem mono {r : Reader α} {lo' hi' : Nat} (h : r.Stays image pos lo hi) (hlo : lo' ≤ lo)
    (hhi : hi ≤ hi') : r.Stays image pos lo' hi' :=
  ⟨Nat.le_trans hlo h.1, Nat.le_trans h.2 hhi⟩

/-- Two readers in sequence stay where the first does and, from where it leaves the cursor, the
second. -/
theorem bind {r : Reader α} {f : α → Reader β} (hr : r.Stays image pos lo hi)
    (hf : ∀ a middle, r.Yields image pos a middle → (f a).Stays image middle lo hi) :
    (r >>= f).Stays image pos lo hi := by
  rcases h : r image pos with ⟨e | a, middle, notes⟩
  · unfold Stays at hr ⊢
    rw [bind_of_error h]
    rw [h] at hr
    exact hr
  · have hnext := hf a middle ⟨by rw [h], by rw [h]⟩
    unfold Stays at hnext ⊢
    rw [bind_of_ok h]
    exact hnext

/-- The second reader may start anywhere between the two places. -/
theorem bind_of_between {r : Reader α} {f : α → Reader β} (hr : r.Stays image pos lo hi)
    (hf : ∀ a middle, lo ≤ middle → middle ≤ hi → (f a).Stays image middle lo hi) :
    (r >>= f).Stays image pos lo hi :=
  hr.bind fun a middle ha => hf a middle (hr.of_yields ha).1 (hr.of_yields ha).2

/-- What is computed from the value of a reader leaves the cursor where the reader does. -/
theorem map {r : Reader α} (hr : r.Stays image pos lo hi) (f : α → β) :
    (r >>= fun a => Pure.pure (f a)).Stays image pos lo hi :=
  hr.bind_of_between fun _ _ hlo hhi => ⟨hlo, hhi⟩

end Stays

/-! ## Readers -/

section Still

variable (hlo : lo ≤ pos) (hhi : pos ≤ hi)
include hlo hhi

theorem stays_pure (a : α) : (Pure.pure a : Reader α).Stays image pos lo hi := ⟨hlo, hhi⟩

theorem stays_fail (e : Error) : (fail e : Reader α).Stays image pos lo hi := ⟨hlo, hhi⟩

theorem stays_note (n : Note) : (note n).Stays image pos lo hi := ⟨hlo, hhi⟩

theorem stays_demand (a : Option α) (e : Error) : (demand a e).Stays image pos lo hi := by
  cases a with
  | none => exact stays_fail hlo hhi e
  | some a => exact stays_pure hlo hhi a

/-- A read elsewhere may go anywhere. -/
theorem stays_within (r : Reader α) : (within r).Stays image pos lo hi := ⟨hlo, hhi⟩

/-- A reader that runs unless a check fails. -/
theorem stays_unless {c : Prop} [Decidable c] {e : Error} {r : Reader α}
    (hr : ¬ c → r.Stays image pos lo hi) : (if c then fail e else r).Stays image pos lo hi := by
  by_cases hc : c
  · rw [if_pos hc]
    exact stays_fail hlo hhi e
  · rw [if_neg hc]
    exact hr hc

theorem stays_seek {target : Nat} (htarget : target ≤ image.size → lo ≤ target ∧ target ≤ hi) :
    (seek target).Stays image pos lo hi := by
  unfold Stays seek
  by_cases h : image.size < target
  · rw [if_pos h]
    exact ⟨hlo, hhi⟩
  · rw [if_neg h]
    exact htarget (Nat.le_of_not_lt h)

theorem stays_take {n : Nat} {view : ByteArray → Nat → α}
    (hend : pos + n ≤ image.size → pos + n ≤ hi) : (take n view).Stays image pos lo hi := by
  unfold Stays take
  by_cases h : image.size < pos + n
  · rw [if_pos h]
    exact ⟨hlo, hhi⟩
  · rw [if_neg h]
    exact ⟨Nat.le_trans hlo (Nat.le_add_right ..), hend (Nat.le_of_not_lt h)⟩

theorem stays_record {r : Record} (hend : pos + r.size ≤ image.size → pos + r.size ≤ hi) :
    (record r).Stays image pos lo hi :=
  (stays_take hlo hhi hend).map _

end Still

/-- A table of `n` entries stays where each of them does. -/
theorem stays_times {r : Reader α} {k top : Nat}
    (hr : ∀ {pos a cursor}, r.Yields image pos a cursor → cursor = pos + k)
    (hstays : ∀ {pos}, lo ≤ pos → pos ≤ hi → pos + k ≤ top → r.Stays image pos lo hi)
    {n : Nat} (hlo : lo ≤ pos) (hhi : pos ≤ hi) (htop : pos + k * n ≤ top) :
    (times n r).Stays image pos lo hi := by
  induction n generalizing pos with
  | zero => exact stays_pure hlo hhi []
  | succ n ih =>
    rw [Nat.mul_succ] at htop
    have hfirst := hstays hlo hhi (by omega)
    refine hfirst.bind fun a middle ha => ?_
    obtain ⟨hlo', hhi'⟩ := hfirst.of_yields ha
    obtain rfl := hr ha
    exact (ih hlo' hhi' (by omega)).map _

end MachImage.Reader
