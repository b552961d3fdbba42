import FilterQuery.Notice

/-!
# How rows are grouped

Rows are read from the right: a row is joined to everything below it, by the relation of the row
below.  Where that relation differs from the one that already holds the rows below together, these
rows form a group of their own.

Main results:

- `relations_length`: every row has its place among the relations.
-/

namespace FilterQuery.Rows

variable {α : Type}

/-- The relation in front of each row.  There is none in front of the first one, and elsewhere the
default stands in for one that is missing. -/
def relations (default : Relation) (rows : List Row) : List (Option Relation) :=
  none :: rows.tail.map fun row => some (row.relation.getD default)

/-- The relation that joins all rows, if it is the same one throughout. -/
def uniform? (relations : List (Option Relation)) : Option Relation :=
  match relations.tail with
  | some first :: rest => if rest.all (· == some first) then some first else none
  | _ => none

/-- Whether the rows below a place form a group of their own: they are held together by a relation
that differs from the one in front of them. -/
def nestsAt (relations : List (Option Relation)) (place : Nat) : Bool :=
  match relations[place + 2]?, relations[place + 1]? with
  | some below, some here => below != here
  | _, _ => false

/-- Joins items from the right.  `combine` is given the relation between an item and what is below
it, and whether what is below is a group of its own. -/
def foldRight (combine : Relation → Bool → α → α → α) :
    List α → List (Option Relation) → Option α
  | [], _ => none
  | [item], _ => some item
  | item :: below, relations =>
      match foldRight combine below relations.tail, relations[1]? with
      | some joined, some (some relation) =>
          some (combine relation (nestsAt relations 0) item joined)
      | joined, _ => joined

/-- An item is joined to what comes of the items below it. -/
theorem foldRight_cons_cons (combine : Relation → Bool → α → α → α) (item next : α)
    (below : List α) (relations : List (Option Relation)) :
    foldRight combine (item :: next :: below) relations =
      match foldRight combine (next :: below) relations.tail, relations[1]? with
      | some joined, some (some relation) =>
          some (combine relation (nestsAt relations 0) item joined)
      | joined, _ => joined :=
  rfl

/-- Every row has its place among the relations. -/
theorem relations_length (default : Relation) {rows : List Row} (h : rows ≠ []) :
    (relations default rows).length = rows.length := by
  cases rows with
  | nil => exact absurd rfl h
  | cons row rest => simp [relations]

/-- The rows that can be used. -/
def usable (rows : List Row) : List Row :=
  rows.filter fun row => row.isUsable

/-- Items joined in the way of their rows, if there are any.  `uniform` joins items between which
the relation is the same throughout; otherwise they are joined from the right. -/
def joinAll (uniform : Relation → List α → α) (combine : Relation → Bool → α → α → α)
    (items : List α) (relations : List (Option Relation)) : Option α :=
  match items with
  | [] => none
  | [item] => some item
  | items =>
      match uniform? relations with
      | some relation => some (uniform relation items)
      | none => foldRight combine items relations

/-- Two items and more are joined at once, or from the right. -/
theorem joinAll_cons_cons (uniform : Relation → List α → α)
    (combine : Relation → Bool → α → α → α) (first second : α) (rest : List α)
    (relations : List (Option Relation)) :
    joinAll uniform combine (first :: second :: rest) relations =
      match uniform? relations with
      | some relation => some (uniform relation (first :: second :: rest))
      | none => foldRight combine (first :: second :: rest) relations :=
  rfl

end FilterQuery.Rows
