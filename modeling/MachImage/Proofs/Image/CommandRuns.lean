import MachImage.Proofs.Image.Events

/-!
# Commands read in two runs

Nothing passes from one load command to the next but the cursor.  So reading
`n + m` commands is reading `n` of them and then, from the cursor that this
leaves, `m` more (`Walk.run_add`): what was met and what was published come one
behind the other, and nothing follows a failure.

`Image.readCommands_add` says this of the commands of an image.  It follows that
a reading fails at the earliest command that cannot be read, and that it makes
no difference to the failure how many commands were to follow.
-/

namespace MachImage

variable {options : Options} {image : ByteArray}

namespace Walk

/-- A walk, and then another from the cursor that it leaves.  Nothing follows a failure. -/
def followedBy (w : Walk) (next : Nat → Walk) : Walk :=
  match w.failure with
  | some _ => w
  | none =>
    let rest := next w.cursor
    ⟨w.entries ++ rest.entries, rest.failure, rest.cursor, w.events ++ rest.events,
      w.notes ++ rest.notes⟩

theorem followedBy_of_failure {w : Walk} {e : Error} (h : w.failure = some e) (next : Nat → Walk) :
    w.followedBy next = w := by
  simp only [followedBy, h]

theorem followedBy_of_none {w : Walk} (h : w.failure = none) (next : Nat → Walk) :
    w.followedBy next =
      ⟨w.entries ++ (next w.cursor).entries, (next w.cursor).failure, (next w.cursor).cursor,
        w.events ++ (next w.cursor).events, w.notes ++ (next w.cursor).notes⟩ := by
  simp only [followedBy, h]

/-- A first entry stays the first, and what it publishes comes first. -/
theorem cons_followedBy (e : Entry) (notes : List Note) (w : Walk) (next : Nat → Walk) :
    Walk.followedBy ⟨e :: w.entries, w.failure, w.cursor, e.events ++ w.events, notes ++ w.notes⟩
        next =
      ⟨e :: (w.followedBy next).entries, (w.followedBy next).failure, (w.followedBy next).cursor,
        e.events ++ (w.followedBy next).events, notes ++ (w.followedBy next).notes⟩ := by
  cases h : w.failure with
  | some e' => simp [followedBy, h]
  | none => simp [followedBy, h]

/-- **A walk over `n + m` commands is one over `n` and then one over `m`.** -/
theorem run_add (options : Options) (image : ByteArray) (n m start : Nat) :
    run options image (n + m) start =
      (run options image n start).followedBy (run options image m) := by
  induction n generalizing start with
  | zero => simp [run, followedBy]
  | succ n ih =>
    rw [Nat.succ_add]
    rcases h : Entry.read options image start with ⟨e | entry, cursor, notes⟩
    · rw [run_succ_of_error h, run_succ_of_error h]
      simp [followedBy]
    · rw [run_succ_of_ok h, run_succ_of_ok h, ih]
      exact (cons_followedBy ..).symm

/-- A walk that fails is the same however many commands were to follow. -/
theorem run_add_of_failure {n start : Nat} {e : Error}
    (h : (run options image n start).failure = some e) (m : Nat) :
    run options image (n + m) start = run options image n start := by
  rw [run_add, followedBy_of_failure h]

/-- No beginning of a walk that does not fail fails. -/
theorem failure_run_of_le {j k start : Nat} (hle : j ≤ k)
    (h : (run options image k start).failure = none) :
    (run options image j start).failure = none := by
  cases hj : (run options image j start).failure with
  | none => rfl
  | some e =>
    obtain ⟨m, rfl⟩ := Nat.exists_eq_add_of_le hle
    rw [run_add_of_failure hj, hj] at h
    cases h

/-- A walk fails at the earliest command that cannot be read, whatever comes behind it. -/
theorem earliest_failure {count start : Nat} {e : Error}
    (h : (run options image count start).failure = some e) :
    ∃ k < count, (∀ j ≤ k, (run options image j start).failure = none) ∧
      (Entry.read options image (run options image k start).cursor).result = .error e ∧
      ∀ other, k < other → run options image other start = run options image count start := by
  obtain ⟨k, hlt, hbefore, hread⟩ := exists_read_error h
  have hfailure := (run_of_read_error (Nat.lt_succ_self k) hbefore hread).1
  have hsame : ∀ other, k < other →
      run options image other start = run options image (k + 1) start := by
    intro other hother
    obtain ⟨m, rfl⟩ := Nat.exists_eq_add_of_le (Nat.succ_le_of_lt hother)
    exact run_add_of_failure hfailure m
  refine ⟨k, hlt, fun j hj => failure_run_of_le hj hbefore, hread, ?_⟩
  intro other hother
  rw [hsame other hother, hsame count hlt]

end Walk

namespace Image

/-- Reading `count` commands fails with a cause, after some events, and leaves the cursor at a
place. -/
def CommandsFail (options : Options) (image : ByteArray) (count start : Nat) (e : Error)
    (events : List Event) (cursor : Nat) : Prop :=
  (readCommands options image count start).result = .error e ∧
    (readCommands options image count start).events = events ∧
    (readCommands options image count start).cursor = cursor

theorem commandsFail_iff {count start cursor : Nat} {e : Error} {events : List Event} :
    CommandsFail options image count start e events cursor ↔
      (Walk.run options image count start).failure = some e ∧
        (Walk.run options image count start).events = events ∧
        (Walk.run options image count start).cursor = cursor := by
  unfold CommandsFail
  rw [result_readCommands_eq_error_iff]
  rfl

theorem filterMap_append_followedBy {α : Type} (f : Entry → Option α) {w : Walk}
    (h : w.failure = none) (next : Nat → Walk) :
    (w.followedBy next).entries.filterMap f =
      w.entries.filterMap f ++ (next w.cursor).entries.filterMap f := by
  simp [Walk.followedBy_of_none h]

/-- What is published in two runs that both get to their end, or the second of which fails. -/
theorem events_readCommands_add {n m start : Nat} {first : Walk}
    (hfirst : (readCommands options image n start).result = .ok first) :
    (readCommands options image (n + m) start).events =
      (readCommands options image n start).events ++
        (readCommands options image m first.cursor).events := by
  obtain ⟨hfailure, rfl⟩ := result_readCommands_eq_ok_iff.1 hfirst
  simp only [readCommands, Walk.run_add options image n m start, Walk.followedBy_of_none hfailure]

/-- Where two runs leave the cursor, if the first gets to its end. -/
theorem cursor_readCommands_add {n m start : Nat} {first : Walk}
    (hfirst : (readCommands options image n start).result = .ok first) :
    (readCommands options image (n + m) start).cursor =
      (readCommands options image m first.cursor).cursor := by
  obtain ⟨hfailure, rfl⟩ := result_readCommands_eq_ok_iff.1 hfirst
  simp only [readCommands, Walk.run_add options image n m start, Walk.followedBy_of_none hfailure]

/-- **Commands are read alike in one run and in two.**  If both runs get to their end, the commands,
those passed over and the events of the second come behind those of the first.  If one of them
fails, so does the whole, with the same cause, the events published by then and the same cursor.
A run fails at its earliest command that cannot be read: it is the same run for every greater count
of commands. -/
theorem readCommands_add (options : Options) (image : ByteArray) (n m start : Nat) :
    (∀ first second, (readCommands options image n start).result = .ok first →
      (readCommands options image m first.cursor).result = .ok second →
        ∃ whole, (readCommands options image (n + m) start).result = .ok whole ∧
          whole.commands = first.commands ++ second.commands ∧
          whole.skipped = first.skipped ++ second.skipped ∧ whole.cursor = second.cursor ∧
          (readCommands options image (n + m) start).cursor =
            (readCommands options image m first.cursor).cursor ∧
          first.cursor = (readCommands options image n start).cursor ∧
          (readCommands options image (n + m) start).events =
            (readCommands options image n start).events ++
              (readCommands options image m first.cursor).events) ∧
    (∀ e events cursor, CommandsFail options image n start e events cursor →
      CommandsFail options image (n + m) start e events cursor) ∧
    (∀ first e events cursor, (readCommands options image n start).result = .ok first →
      CommandsFail options image m first.cursor e events cursor →
        CommandsFail options image (n + m) start e
          ((readCommands options image n start).events ++ events) cursor) ∧
    ∀ e events cursor, CommandsFail options image n start e events cursor →
      ∃ k < n, (∀ j ≤ k, (Walk.run options image j start).failure = none) ∧
        (Entry.read options image (Walk.run options image k start).cursor).result = .error e ∧
        ∀ count, k < count → CommandsFail options image count start e events cursor := by
  refine ⟨?_, ?_, ?_, ?_⟩
  · intro first second hfirst hsecond
    have hevents := events_readCommands_add (m := m) hfirst
    have hcursor := cursor_readCommands_add (m := m) hfirst
    obtain ⟨hfailure, rfl⟩ := result_readCommands_eq_ok_iff.1 hfirst
    obtain ⟨hfailure', rfl⟩ := result_readCommands_eq_ok_iff.1 hsecond
    have hwhole := Walk.followedBy_of_none hfailure (Walk.run options image m)
    refine ⟨_, result_readCommands_eq_ok_iff.2 ⟨?_, rfl⟩, ?_, ?_, hcursor, hcursor, rfl, hevents⟩
    · rw [Walk.run_add, hwhole, hfailure']
    · rw [Walk.commands, Walk.run_add, filterMap_append_followedBy _ hfailure]
      rfl
    · rw [Walk.skipped, Walk.run_add, filterMap_append_followedBy _ hfailure]
      rfl
  · intro e events cursor h
    rw [commandsFail_iff] at h ⊢
    rw [Walk.run_add_of_failure h.1]
    exact h
  · intro first e events cursor hfirst h
    have hevents := events_readCommands_add (m := m) hfirst
    have hleft := cursor_readCommands_add (m := m) hfirst
    obtain ⟨herror, hpublished, hcursor⟩ := h
    obtain ⟨hfailure, rfl⟩ := result_readCommands_eq_ok_iff.1 hfirst
    have hwhole := Walk.followedBy_of_none hfailure (Walk.run options image m)
    refine ⟨?_, ?_, ?_⟩
    · rw [result_readCommands_eq_error_iff] at herror ⊢
      rw [Walk.run_add, hwhole, herror]
    · rw [hevents, hpublished]
    · rw [hleft, hcursor]
  · intro e events cursor h
    rw [commandsFail_iff] at h
    obtain ⟨k, hlt, hbefore, hread, hsame⟩ := Walk.earliest_failure h.1
    refine ⟨k, hlt, hbefore, hread, ?_⟩
    intro count hcount
    rw [commandsFail_iff, hsame count hcount]
    exact h

/-- A command that is passed over, one that is decoded and a third one that is not there. -/
theorem unknownAndSource_in_two_runs :
    (∃ whole, (readCommands {} Walk.unknownAndSource 2 28).result = .ok whole ∧
      whole.commands.length = 1 ∧ whole.skipped.length = 1 ∧ whole.cursor = 52) ∧
    ∃ c, CommandsFail {} Walk.unknownAndSource 3 28 (.bufferTooSmall 60 52) [.commandDecoded c] 52 ∧
      CommandsFail {} Walk.unknownAndSource 1000 28 (.bufferTooSmall 60 52)
        [.commandDecoded c] 52 := by
  have hfirst : (readCommands {} Walk.unknownAndSource 1 28).result =
      .ok (Walk.run {} Walk.unknownAndSource 1 28) := rfl
  have hsecond : (readCommands {} Walk.unknownAndSource 1 36).result =
      .ok (Walk.run {} Walk.unknownAndSource 1 36) := rfl
  obtain ⟨c, hc⟩ : ∃ c, (Walk.run {} Walk.unknownAndSource 2 36).commands = [c] := ⟨_, rfl⟩
  have hfails : CommandsFail {} Walk.unknownAndSource 2 36 (.bufferTooSmall 60 52)
      [.commandDecoded c] 52 := by
    rw [commandsFail_iff, Walk.events_run, hc]
    exact ⟨rfl, rfl, rfl⟩
  obtain ⟨whole, hwhole, hcommands, hskipped, hcursor, -⟩ :=
    (readCommands_add {} Walk.unknownAndSource 1 1 28).1 _ _ hfirst hsecond
  have hthird := (readCommands_add {} Walk.unknownAndSource 1 2 28).2.2.1 _ _ _ _ hfirst hfails
  have hmany := (readCommands_add {} Walk.unknownAndSource 3 997 28).2.1 _ _ _ hthird
  refine ⟨⟨whole, hwhole, ?_, ?_, hcursor⟩, c, hthird, hmany⟩
  · rw [hcommands]
    rfl
  · rw [hskipped]
    rfl

end Image

end MachImage
