import FilterQuery.Clause
import FilterQuery.Coercion
import FilterQuery.Compilation

/-!
# The clause of a condition

Every operator has its clause.  Equality is a test for the exact value on exact fields, on date
fields and for numbers, and otherwise a search for words.  The operators that negate another one
have the negation of its clause.

Main results:

- `Comparison.clause_eq_map_primitive`: the clause of a comparison is a primitive clause or the
  negation of one.
- `Condition.clause?_of_not_isUsable`: a condition that cannot be used has no clause.
- `Condition.value_compile`: compiling a condition gives its clause.
-/

namespace FilterQuery

open Number

namespace Condition

/-- Whether a value is compared exactly on a field. -/
def comparesExactly (field : String) (value : Value) : Bool :=
  Field.isExact field || Field.isDate field || Coercion.isNumeric value

/-- The test that a field equals the value of the condition. -/
def equality (c : Condition) : Except DigitLimit Primitive :=
  if comparesExactly c.field c.value then
    (Coercion.coerce c.field c.value).map (.term c.field)
  else .ok (.matching c.field c.value)

/-- The test that a field equals one of the values of the condition. -/
def membership (c : Condition) : Except DigitLimit Primitive :=
  ((Coercion.asList c.value).mapM (Coercion.coerce c.field)).map (.terms c.field)

/-- A bound as the query carries it, if it was filled in. -/
def coerceBound (field : String) (bound : Bound) : Except DigitLimit (Option Bound) :=
  if bound.limit.isBlank then .ok none
  else (Coercion.coerce field bound.limit).map fun limit => some { bound with limit }

/-- The test that a field lies between the bounds of the condition. -/
def between (c : Condition) : Except DigitLimit Primitive := do
  let lower ← coerceBound c.field c.lower
  let upper ← coerceBound c.field c.upper
  return .range c.field lower upper

/-- The test that a field starts with the value of the condition.  On a field that is not exact it
is a test for a pattern. -/
def beginning (c : Condition) : Except DigitLimit Primitive :=
  if Field.isExact c.field then .ok (.startsWith c.field c.value)
  else c.value.display.map fun text => .wildcard c.field (.text (text ++ "*"))

end Condition

/-- The clause of a comparison. -/
def Comparison.clause (comparison : Comparison) : Except DigitLimit Clause :=
  let c := comparison.condition
  match comparison.operator with
  | .equal => c.equality.map .primitive
  | .notEqual => c.equality.map .negation
  | .oneOf => c.membership.map .primitive
  | .noneOf => c.membership.map .negation
  | .present => .ok (.primitive (.present c.field))
  | .absent => .ok (.negation (.present c.field))
  | .range => c.between.map .primitive
  | .startsWith => c.beginning.map .primitive
  | .wildcard => .ok (.primitive (.wildcard c.field c.value))
  | .queryString => .ok (.primitive (.queryString c.field c.value))

/-- The primitive clause that a comparison asks for or, if it is negated, asks the opposite of. -/
def Comparison.primitive (comparison : Comparison) : Except DigitLimit Primitive :=
  let c := comparison.condition
  match comparison.operator with
  | .equal | .notEqual => c.equality
  | .oneOf | .noneOf => c.membership
  | .present | .absent => .ok (.present c.field)
  | .range => c.between
  | .startsWith => c.beginning
  | .wildcard => .ok (.wildcard c.field c.value)
  | .queryString => .ok (.queryString c.field c.value)

/-- The clause of a comparison is a primitive clause or, if it is negated, the negation of one. -/
theorem Comparison.clause_eq_map_primitive (comparison : Comparison) :
    comparison.clause =
      (if comparison.operator.negated then Clause.negation else Clause.primitive)
        <$> comparison.primitive := by
  obtain ⟨c, op⟩ := comparison
  cases op <;> rfl

/-- The clause of a condition, if it can be used. -/
def Condition.clause? (c : Condition) : Except DigitLimit (Option Clause) :=
  match c.comparison? with
  | some comparison => comparison.clause.map some
  | none => .ok none

/-- The clause of a condition; one that cannot be used is noted and left out. -/
def Condition.compile (c : Condition) : Compilation (Option Clause) :=
  match c.check with
  | .ok comparison => some <$> Compilation.ofExcept comparison.clause
  | .error notice => do
      Compilation.note notice
      return none

/-- A condition that cannot be used has no clause. -/
theorem Condition.clause?_of_not_isUsable {c : Condition} (h : c.isUsable = false) :
    c.clause? = .ok none := by
  have hnone : c.comparison? = none := by simpa [isUsable] using h
  simp [clause?, hnone]

/-- Compiling a condition gives its clause. -/
theorem Condition.value_compile (c : Condition) : c.compile.value = c.clause? := by
  cases h : c.check with
  | ok comparison =>
      simp only [compile, clause?, comparison?, h, Except.toOption, Compilation.value_map,
        Compilation.value_ofExcept]
      rfl
  | error notice =>
      simp only [compile, clause?, comparison?, h, Except.toOption, Compilation.value_bind,
        Compilation.value_note, Compilation.value_pure]
      rfl

end FilterQuery
