import FilterQuery.Node.Clause
import FilterQuery.Rows.Clause

/-!
# Filters and their queries

A filter is a tree or a list of rows.  Either is compiled to a clause, which becomes the query
document.  Conditions that cannot be used are left out: those that were begun are reported with a
warning, in the order in which they stand.
-/

namespace FilterQuery

open Number

/-- A filter in either of its two forms. -/
inductive Filter where
  | tree (root : Option Node)
  | rows (rows : List Row)

/-- What a call has to report besides its result. -/
inductive Outcome (α : Type) where
  | success (data : α) (warnings : List Notice)
  | failure (errors warnings : List Notice)
deriving Repr

namespace Filter

/-- The conditions of a filter, usable or not. -/
def conditions : Filter → List Condition
  | tree root => root.elim [] Node.conditions
  | rows rs => rs.map Row.toCondition

/-- The clause of a filter, if anything in it can be used.  The default relation stands in for
one that a row does not state. -/
def compile (default : Relation) : Filter → Compilation (Option Clause)
  | tree none => pure none
  | tree (some root) => root.compile
  | rows rs => Rows.compile default rs

/-- The clause of a filter, whatever was left out of it. -/
def clause? (default : Relation) (filter : Filter) : Except DigitLimit (Option Clause) :=
  (filter.compile default).value

/-- The query document of a filter. -/
def document (default : Relation) (filter : Filter) : Except DigitLimit Value :=
  (filter.clause? default).map queryDocument

/-- The query document of a filter, with a warning for every condition that was begun and left
out. -/
def report (default : Relation) (filter : Filter) : Except DigitLimit (Outcome Value) :=
  (filter.compile default).run.map fun (clause, warnings) =>
    .success (queryDocument clause) warnings

end Filter

end FilterQuery
