import FilterQuery.Condition.Clause
import FilterQuery.Rows.Grouping

/-!
# The clause of rows

The clauses of the rows that can be used are joined from the right.  Where the relation does not
change, one more clause is put in front of the parts that are joined already; otherwise what is
joined already becomes a part itself.

Main results:

- `Clause.prepend_nested`: what is to stay a group of its own is never taken apart.
-/

namespace FilterQuery

/-- One more clause in front of what is joined already. -/
def Clause.prepend (relation : Relation) (nested : Bool) (clause joined : Clause) : Clause :=
  match nested, joined.parts? relation with
  | false, some parts => .junction relation (clause :: parts)
  | _, _ => .junction relation [clause, joined]

/-- What is to stay a group of its own is never taken apart. -/
@[simp]
theorem Clause.prepend_nested (relation : Relation) (clause joined : Clause) :
    prepend relation true clause joined = .junction relation [clause, joined] :=
  rfl

namespace Rows

/-- The rows that can be used, each with its clause. -/
def compileEach : List Row → Compilation (List (Row × Clause))
  | [] => pure []
  | row :: rest => do
      let clause ← row.toCondition.compile
      let others ← compileEach rest
      return (clause.map fun clause => (row, clause)).toList ++ others

/-- The clause of rows, if any of them can be used.  The default stands in for a relation that a
row does not state. -/
def compile (default : Relation) (rows : List Row) : Compilation (Option Clause) := do
  let kept ← compileEach rows
  return joinAll .junction Clause.prepend (kept.map Prod.snd)
    (relations default (kept.map Prod.fst))

end Rows

end FilterQuery
