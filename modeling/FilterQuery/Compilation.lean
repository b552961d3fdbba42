import FilterQuery.Notice
import FilterQuery.Number.Decimal

/-!
# Compilation

Conditions that cannot be used do not stop the work on a filter: they are left out, and those that
were begun are reported.  A compilation gives a result together with the notices about everything
that was left out on the way.  It fails only at an integer with too many digits.

Main results:

- `value_bind`: the result of two steps is that of the second one, on the result of the first.
-/

namespace FilterQuery

open Number

/-- A result, and the notices about what was left out for it. -/
structure Compilation (α : Type) where
  run : Except DigitLimit (α × List Notice)

namespace Compilation

variable {α β : Type}

instance : Monad Compilation where
  pure a := ⟨.ok (a, [])⟩
  bind step next := ⟨do
    let (a, before) ← step.run
    let (b, after) ← (next a).run
    return (b, before ++ after)⟩

/-- A result without notices. -/
def ofExcept (result : Except DigitLimit α) : Compilation α :=
  ⟨result.map fun a => (a, [])⟩

/-- Notes why something was left out, unless it was not begun yet. -/
def note (notice : Notice) : Compilation Unit :=
  ⟨.ok ((), if notice.isSilent then [] else [notice])⟩

/-- The result, whatever was left out for it. -/
def value (compilation : Compilation α) : Except DigitLimit α :=
  compilation.run.map Prod.fst

@[simp]
theorem value_pure (a : α) : (pure a : Compilation α).value = .ok a :=
  rfl

@[simp]
theorem value_ofExcept (result : Except DigitLimit α) : (ofExcept result).value = result := by
  cases result <;> rfl

@[simp]
theorem value_note (notice : Notice) : (note notice).value = .ok () :=
  rfl

/-- The result of two steps is that of the second one, on the result of the first. -/
@[simp]
theorem value_bind (step : Compilation α) (next : α → Compilation β) :
    (step >>= next).value = step.value >>= fun a => (next a).value := by
  rcases step with ⟨_ | ⟨a, before⟩⟩
  · rfl
  · rcases hnext : next a with ⟨_ | ⟨b, after⟩⟩ <;>
      simp [value, bind, Except.bind, Except.map, pure, Except.pure, hnext]

/-- A result is changed without a look at the notices. -/
@[simp]
theorem value_map (f : α → β) (step : Compilation α) : (f <$> step).value = f <$> step.value := by
  rcases step with ⟨_ | ⟨a, before⟩⟩ <;> rfl

end Compilation

end FilterQuery
