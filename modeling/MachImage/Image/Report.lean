import MachImage.Event
import MachImage.Note

/-!
# Reports

A `Report` is the result of a stage of the building of an image with the events
published and the notes made on the way, those before a failure included.
Reports form a lawful monad.  A stage that reads the file one command after
another also says how far it got (`Reading`).
-/

namespace MachImage

/-- The result of a stage, with the events published and the notes made. -/
structure Report (α : Type) where
  result : Except Error α
  events : List Event
  notes : List Note

/-- The report of a stage that reads on from a cursor, with the cursor it leaves. -/
structure Reading (α : Type) extends Report α where
  cursor : Nat

namespace Report

variable {α β γ : Type}

/-- A value, with nothing to tell. -/
def pure (a : α) : Report α := ⟨.ok a, [], []⟩

/-- One stage, then another that depends on the value of the first. -/
def bind (r : Report α) (f : α → Report β) : Report β :=
  match r with
  | ⟨.error e, events, notes⟩ => ⟨.error e, events, notes⟩
  | ⟨.ok a, events, notes⟩ =>
    let next := f a
    ⟨next.result, events ++ next.events, notes ++ next.notes⟩

instance : Monad Report where
  pure := pure
  bind := bind

instance : LawfulMonad Report := LawfulMonad.mk' Report
  (by
    intro α r
    rcases r with ⟨_ | _, _, _⟩ <;> simp [Functor.map, bind, pure])
  (by
    intro α β a f
    simp [Bind.bind, Pure.pure, bind, pure])
  (by
    intro α β γ r f g
    rcases r with ⟨_ | a, events, notes⟩
    · rfl
    · simp only [Bind.bind, bind]
      rcases f a with ⟨_ | b, events', notes'⟩ <;> simp)

@[simp] theorem bind_ok (a : α) (events : List Event) (notes : List Note) (f : α → Report β) :
    (⟨.ok a, events, notes⟩ : Report α) >>= f =
      ⟨(f a).result, events ++ (f a).events, notes ++ (f a).notes⟩ := rfl

@[simp] theorem bind_error (e : Error) (events : List Event) (notes : List Note)
    (f : α → Report β) :
    (⟨.error e, events, notes⟩ : Report α) >>= f = ⟨.error e, events, notes⟩ := rfl

/-- The result that a failure leaves of a value. -/
def resultOf (failure : Option Error) (a : α) : Except Error α :=
  match failure with
  | some e => .error e
  | none => .ok a

end Report

end MachImage
