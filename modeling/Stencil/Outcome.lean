import Stencil.Failure
import Stencil.Template.Table

/-!
# Outcomes

What a step of a compilation comes to: a value or a failure, with the warnings given on the way to
it. A failure keeps the warnings before it.
-/

namespace Stencil

/-- A value or a failure, with the warnings given on the way. -/
structure Outcome (α : Type) where
  warnings : List Warning
  result : Except Failure α

namespace Outcome

variable {α β : Type}

/-- Goes on with the value; the warnings add up. -/
protected def bind (o : Outcome α) (f : α → Outcome β) : Outcome β :=
  match o.result with
  | .ok a => ⟨o.warnings ++ (f a).warnings, (f a).result⟩
  | .error e => ⟨o.warnings, .error e⟩

instance : Monad Outcome where
  pure a := ⟨[], .ok a⟩
  bind := Outcome.bind

/-- A value or a failure without warnings. -/
def ofExcept (r : Except Failure α) : Outcome α :=
  ⟨[], r⟩

/-- A value with warnings. -/
def noted (a : α × List Warning) : Outcome α :=
  ⟨a.2, .ok a.1⟩

end Outcome

end Stencil
