/-!
# Relations

A relation joins the parts of a filter: all of them have to hold, or at least one.

Main results:

- `flipped_flipped`: flipping a relation twice gives it back.
- `ofKeyword?_keyword`: a relation is read from the word that is written for it.
-/

namespace FilterQuery

/-- How the parts of a filter are joined. -/
inductive Relation where
  | and
  | or
deriving DecidableEq, Repr

namespace Relation

/-- The other relation. -/
def flipped : Relation → Relation
  | .and => .or
  | .or => .and

/-- The word for a relation. -/
def keyword : Relation → String
  | .and => "AND"
  | .or => "OR"

/-- The relation that a word stands for. -/
def ofKeyword? (word : String) : Option Relation :=
  if word = "AND" then some .and else if word = "OR" then some .or else none

/-- Flipping a relation twice gives it back. -/
@[simp]
theorem flipped_flipped (r : Relation) : r.flipped.flipped = r := by
  cases r <;> rfl

/-- A relation is read from the word that is written for it. -/
@[simp]
theorem ofKeyword?_keyword (r : Relation) : ofKeyword? r.keyword = some r := by
  cases r <;> simp [ofKeyword?, keyword]

end Relation

end FilterQuery
