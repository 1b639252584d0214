import Mathlib.Tactic.Common

/-!
# The first element with a property

Commands, segments and sections are looked for from the front of a list.  An
element is the `First` with a property if it has the property and none before it
does; searches find exactly that one (`find?_eq_some_iff_first`,
`findSome?_eq_some_iff_first`).
-/

namespace MachImage

variable {α β : Type} {p : α → Prop} {l : List α} {a b : α}

/-- An element of a list that has a property, with none before it that has it. -/
def First (p : α → Prop) (l : List α) (a : α) : Prop :=
  ∃ before after, l = before ++ a :: after ∧ (∀ b ∈ before, ¬ p b) ∧ p a

theorem First.holds (h : First p l a) : p a := by
  obtain ⟨-, -, -, -, ha⟩ := h
  exact ha

theorem First.mem (h : First p l a) : a ∈ l := by
  obtain ⟨before, after, rfl, -, -⟩ := h
  exact List.mem_append_right _ List.mem_cons_self

/-- The first element of a list is the one in front if that has the property, and otherwise that of
the list behind. -/
theorem first_cons : First p (b :: l) a ↔ (p b ∧ a = b) ∨ (¬ p b ∧ First p l a) := by
  constructor
  · rintro ⟨_ | ⟨c, before⟩, after, hsplit, hbefore, ha⟩
    · obtain ⟨rfl, rfl⟩ := List.cons.inj hsplit
      exact Or.inl ⟨ha, rfl⟩
    · obtain ⟨rfl, rfl⟩ := List.cons.inj hsplit
      rw [List.forall_mem_cons] at hbefore
      exact Or.inr ⟨hbefore.1, before, after, rfl, hbefore.2, ha⟩
  · rintro (⟨hb, rfl⟩ | ⟨hb, before, after, rfl, hbefore, ha⟩)
    · exact ⟨[], l, rfl, by simp, hb⟩
    · exact ⟨b :: before, after, rfl, List.forall_mem_cons.2 ⟨hb, hbefore⟩, ha⟩

/-- A search finds the first element that passes its test. -/
theorem find?_eq_some_iff_first {test : α → Bool} (htest : ∀ a, test a = true ↔ p a) :
    l.find? test = some a ↔ First p l a := by
  rw [List.find?_eq_some_iff_append, htest]
  constructor
  · rintro ⟨ha, before, after, hsplit, hbefore⟩
    refine ⟨before, after, hsplit, fun b hb hp => ?_, ha⟩
    have hfails := hbefore b hb
    rw [(htest b).2 hp] at hfails
    cases hfails
  · rintro ⟨before, after, hsplit, hbefore, ha⟩
    refine ⟨ha, before, after, hsplit, fun b hb => ?_⟩
    rw [Bool.not_eq_true', ← Bool.not_eq_true, htest]
    exact hbefore b hb

/-- A search for a value finds that of the first element that has one. -/
theorem findSome?_eq_some_iff_first {f : α → Option β} {y : β}
    (hf : ∀ a ∈ l, (f a).isSome = true ↔ p a) :
    l.findSome? f = some y ↔ ∃ a, First p l a ∧ f a = some y := by
  rw [List.findSome?_eq_some_iff]
  constructor
  · rintro ⟨before, a, after, rfl, ha, hbefore⟩
    have hp : p a := (hf a (by simp)).1 (by rw [ha]; rfl)
    refine ⟨a, ⟨before, after, rfl, fun b hb hp => ?_, hp⟩, ha⟩
    have hsome := (hf b (List.mem_append_left _ hb)).2 hp
    rw [hbefore b hb] at hsome
    cases hsome
  · rintro ⟨a, ⟨before, after, rfl, hbefore, -⟩, ha⟩
    refine ⟨before, a, after, rfl, ha, fun b hb => ?_⟩
    rw [← Option.not_isSome_iff_eq_none, hf b (List.mem_append_left _ hb)]
    exact hbefore b hb

/-- Among elements of which one has a property there is a first one. -/
theorem exists_first [DecidablePred p] (h : ∃ a ∈ l, p a) :
    ∃ a, First p l a ∧ l.find? (fun a => p a) = some a := by
  obtain ⟨a, hfind⟩ : ∃ a, l.find? (fun a => p a) = some a := by
    rw [← Option.isSome_iff_exists, List.find?_isSome]
    simpa using h
  exact ⟨a, (find?_eq_some_iff_first fun _ => decide_eq_true_iff).1 hfind, hfind⟩

end MachImage
