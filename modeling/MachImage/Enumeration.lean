/-!
# Enumerations stored as numbers

Many fields of an image hold a number that stands for one of a few named
things.  A `Coded` type has two tables: the number of each value
(`Coded.code`), and the value of each number (`Coded.ofCode?`), which has no
value for most numbers.  In a `LawfulCoded` family each table inverts the other
(`Coded.ofCode?_eq_some_iff`).
-/

namespace MachImage

/-- A finite family of named values, each stored as a number of type `κ`. -/
class Coded (α : Type) (κ : outParam Type) where
  /-- The number a value is stored as. -/
  code : α → κ
  /-- The value stored as a number, if there is one. -/
  ofCode? : κ → Option α
  /-- The name a value is shown by. -/
  name : α → String

/-- The table of numbers and the table of values agree. -/
class LawfulCoded (α : Type) {κ : Type} [Coded α κ] : Prop where
  /-- Looking up the number of a value gives the value. -/
  ofCode?_code : ∀ a : α, Coded.ofCode? (Coded.code a) = some a
  /-- A value is found under no number but its own. -/
  code_of_ofCode? : ∀ {k : κ} {a : α}, Coded.ofCode? k = some a → Coded.code a = k

namespace Coded

variable {α κ : Type} [Coded α κ] [LawfulCoded α]

/-- Looking a number up gives the one value stored as that number. -/
theorem ofCode?_eq_some_iff {k : κ} {a : α} : ofCode? k = some a ↔ code a = k :=
  ⟨LawfulCoded.code_of_ofCode?, fun h => h ▸ LawfulCoded.ofCode?_code a⟩

/-- If a list has the numbers of all values and no others, then what is not in it stands for
nothing. -/
theorem notMem_iff_ofCode?_eq_none {ks : List κ} (hcodes : ∀ a : α, code a ∈ ks)
    (hfound : (ks.all fun k => (ofCode? k : Option α).isSome) = true) {k : κ} :
    k ∉ ks ↔ (ofCode? k : Option α) = none := by
  constructor
  · intro hk
    refine Option.eq_none_iff_forall_ne_some.2 fun a ha => hk ?_
    exact ofCode?_eq_some_iff.1 ha ▸ hcodes a
  · intro hnone hk
    have hsome := List.all_eq_true.1 hfound k hk
    rw [hnone] at hsome
    cases hsome

end Coded

end MachImage
