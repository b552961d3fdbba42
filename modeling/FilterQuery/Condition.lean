import FilterQuery.Operator
import FilterQuery.Relation
import FilterQuery.Value

/-!
# Conditions and rows

A condition compares one field.  Forms list conditions as rows, each of which says how it is
joined to the row above it.  Conditions are also kept while they are only half filled in, so
every part has a value that stands for "not filled in yet".

Main results:

- `Side.isInclusive?_keyword`: a bound is read from the word that is written for it.
-/

namespace FilterQuery

/-- The two ends of a range. -/
inductive Side where
  | lower
  | upper
deriving DecidableEq, Repr

namespace Side

/-- The word for a bound at one end that excludes or includes its limit. -/
def keyword : Side → Bool → String
  | lower, false => "gt"
  | lower, true => "gte"
  | upper, false => "lt"
  | upper, true => "lte"

/-- Whether the bound that a word stands for at one end includes its limit. -/
def isInclusive? (side : Side) (word : String) : Option Bool :=
  if word = side.keyword false then some false
  else if word = side.keyword true then some true
  else none

/-- A bound is read from the word that is written for it. -/
@[simp]
theorem isInclusive?_keyword (side : Side) (inclusive : Bool) :
    side.isInclusive? (side.keyword inclusive) = some inclusive := by
  cases side <;> cases inclusive <;> decide

end Side

/-- One end of a range; it excludes its limit unless it is said to include it. -/
structure Bound where
  inclusive : Bool := false
  limit : Value := .text ""

/-- A comparison of one field. -/
structure Condition where
  id : String
  field : String := ""
  operator : Option Operator := none
  value : Value := .text ""
  lower : Bound := {}
  upper : Bound := {}

/-- A condition in a list of rows, with the relation that joins it to the row above. -/
structure Row extends Condition where
  relation : Option Relation := none

namespace Condition

/-- Whether a condition names a field and an operator. -/
def isComplete (c : Condition) : Bool :=
  !c.field.isEmpty && c.operator.isSome

/-- Whether a condition asks for the opposite of another one. -/
def isNegated (c : Condition) : Bool :=
  c.operator.any Operator.negated

/-- A condition as a row of its own. -/
def toRow (c : Condition) (relation : Option Relation) : Row :=
  { c with relation }

end Condition

/-- A row joined to the row above by another relation. -/
def Row.withRelation (row : Row) (relation : Option Relation) : Row :=
  { row with relation }

end FilterQuery
