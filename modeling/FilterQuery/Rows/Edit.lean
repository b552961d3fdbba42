import FilterQuery.Rows.Grouping
import FilterQuery.Update

/-!
# Editing rows

Rows are edited by their place in the list.  The first row states no relation and every row below
it states one; rows are added and removed so that this stays true.  A place that does not exist
leaves the rows as they are.
-/

namespace FilterQuery

/-- A new row joined by a relation: an empty one, one that was built before, or one read from
data, whatever relation the data states. -/
def Reading.newRow (relation : Option Relation) : Input → Reading Row
  | .null => (fun id => { id, relation }) <$> mint
  | .node (.leaf l) => pure (l.condition.toRow relation)
  | .node (.group _ _ _) => within (.field "kind") (fail .notAnOption)
  | .object fields => rowFields (Input.set "relation" (.ofValue (Relation.field relation)) fields)
  | _ => fail .notObject

namespace Rows

/-- The relation that is asked for, or the default if it is left out. -/
def relationOr (default : Relation) (relation : Input) : Except Error Relation :=
  (Relation.resolve relation).map fun given => given.getD default

/-- One more row at the end.  The first row of all states no relation. -/
def add (default : Relation) (rows : List Row) (relation row : Input) (ids : IdSupply) :
    Except Error (List Row × IdSupply) := do
  let joined ← if rows.isEmpty then pure none else some <$> relationOr default relation
  let (row, ids) ← Reading.call (Reading.newRow joined row) ids
  return (rows ++ [row], ids)

/-- The place that a number means, if the list has it. -/
def place? (rows : List Row) (index : Int) : Option Nat :=
  if 0 ≤ index ∧ index < rows.length then some index.toNat else none

/-- One more row below the one at a place. -/
def insertAfter (default : Relation) (rows : List Row) (index : Int) (relation row : Input)
    (ids : IdSupply) : Except Error (List Row × IdSupply) :=
  match place? rows index with
  | none => .ok (rows, ids)
  | some place => do
      let joined ← relationOr default relation
      let (row, ids) ← Reading.call (Reading.newRow (some joined) row) ids
      return (rows.take (place + 1) ++ row :: rows.drop (place + 1), ids)

/-- The rows with the first one stating no relation. -/
def withBase : List Row → List Row
  | [] => []
  | row :: rest => row.withRelation none :: rest

/-- The rows without the one at a place.  A row that becomes the first one loses its relation. -/
def remove (rows : List Row) (index : Int) : List Row :=
  match place? rows index with
  | none => rows
  | some 0 => withBase rows.tail
  | some place => rows.eraseIdx place

/-- The rows with an update applied to the one at a place. -/
def update (rows : List Row) (index : Int) (given : List (String × Input)) (ids : IdSupply) :
    Except Error (List Row × IdSupply) :=
  match place? rows index with
  | none => .ok (rows, ids)
  | some place =>
      match rows[place]? with
      | none => .ok (rows, ids)
      | some row =>
          (Reading.call (Reading.updatedRow row given) ids).map fun (row, ids) =>
            (rows.set place row, ids)

/-- Whether one more row may be added: there are rows, and all of them can be used. -/
def canAdd (rows : List Row) : Bool :=
  !rows.isEmpty && rows.all fun row => row.isUsable

end Rows

end FilterQuery
