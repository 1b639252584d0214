import MachImage.Proofs.Command.Walk

/-!
# What a walk accepts

The load commands of an image have a grammar: a chain of offsets, each command
starting where the one before it ends, with every command long enough to hold
its first two words, inside the image, and of a kind that is unknown or
decoded and fits (`CommandFits`).  A walk fails exactly if there is no such
chain (`Walk.failure_run_eq_none_iff`), so that it neither accepts nor refuses
too much.
-/

namespace MachImage.Walk

variable {options : Options} {image : ByteArray} {start count : Nat}

/-- A walk does not fail if its first command can be passed over or decoded and the walk over the
others from its end on does not fail. -/
theorem failure_run_succ_eq_none_iff :
    (run options image (count + 1) start).failure = none ↔
      (8 ≤ (lengthAt image start).toNat ∧
        start + (lengthAt image start).toNat ≤ image.size ∧ CommandFits options image start) ∧
      (run options image count (start + (lengthAt image start).toNat)).failure = none := by
  rw [← exists_entryAt_iff]
  obtain ⟨-, hfailure, hentry⟩ | ⟨e, hentry, -, hfailure, -⟩ :=
    run_succ_cases options image count start
  · constructor
    · intro h
      exact absurd h hfailure
    · rintro ⟨⟨e, he⟩, -⟩
      exact absurd he (hentry e)
  · rw [hfailure, hentry.length_eq]
    constructor
    · intro h
      exact ⟨⟨e, hentry⟩, h⟩
    · rintro ⟨-, h⟩
      exact h

/-- The chain with one more offset in front. -/
def precede (start : Nat) (offset : Nat → Nat) : Nat → Nat
  | 0 => start
  | i + 1 => offset i

/-- **A walk accepts exactly the chains of commands that fit.** -/
theorem failure_run_eq_none_iff (options : Options) (image : ByteArray) (count start : Nat) :
    (run options image count start).failure = none ↔
      ∃ offset : Nat → Nat, offset 0 = start ∧
        ∀ i < count,
          offset (i + 1) = offset i + (lengthAt image (offset i)).toNat ∧
          8 ≤ (lengthAt image (offset i)).toNat ∧ offset (i + 1) ≤ image.size ∧
          CommandFits options image (offset i) := by
  induction count generalizing start with
  | zero =>
    constructor
    · intro _
      exact ⟨fun _ => start, rfl, fun i hi => absurd hi (Nat.not_lt_zero i)⟩
    · intro _
      rfl
  | succ count ih =>
    rw [failure_run_succ_eq_none_iff, ih]
    constructor
    · rintro ⟨⟨hlength, hend, hfits⟩, offset, hzero, hchain⟩
      refine ⟨precede start offset, rfl, fun i hi => ?_⟩
      cases i with
      | zero =>
        have hnext : offset 0 ≤ image.size := by
          rw [hzero]
          exact hend
        exact ⟨hzero, hlength, hnext, hfits⟩
      | succ i => exact hchain i (Nat.lt_of_succ_lt_succ hi)
    · rintro ⟨offset, rfl, hchain⟩
      obtain ⟨hnext, hlength, hend, hfits⟩ := hchain 0 (Nat.zero_lt_succ count)
      refine ⟨⟨hlength, hnext ▸ hend, hfits⟩, fun i => offset (i + 1), hnext, fun i hi => ?_⟩
      exact hchain (i + 1) (Nat.succ_lt_succ hi)

end MachImage.Walk
