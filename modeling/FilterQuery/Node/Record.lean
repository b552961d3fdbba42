import FilterQuery.Node

/-!
# Records

A record is the data that describes a condition, a row or a node to other programs.  It has a
field for everything, in a fixed order, and a sparse record leaves out the fields that hold
nothing.  Numbers that cannot be exchanged are recorded as nothing.

The fields that go by two words have two names: a plain one, by which updates name them, and the
one that stands in records.

Main results:

- `Node.records_eq_map`: the children of a group are recorded one by one.
-/

namespace FilterQuery

/-- The name in records of a field that goes by two words. -/
def recordName (name : String) : String :=
  match name with
  | "min_operator" => "minOperator"
  | "min_value" => "minValue"
  | "max_operator" => "maxOperator"
  | "max_value" => "maxValue"
  | name => name

/-- The word for a relation, or nothing. -/
def Relation.field : Option Relation → Value
  | some relation => .text relation.keyword
  | none => .null

/-- The fields of a condition by their plain names. -/
def Condition.fields (c : Condition) : List (String × Value) :=
  [("kind", .text "condition"), ("id", .text c.id), ("field", .text c.field),
    ("operator", c.operator.elim .null fun op => .text op.name), ("value", c.value),
    ("min_operator", .text (Side.lower.keyword c.lower.inclusive)), ("min_value", c.lower.limit),
    ("max_operator", .text (Side.upper.keyword c.upper.inclusive)), ("max_value", c.upper.limit)]

/-- The fields of a row by their plain names. -/
def Row.fields (row : Row) : List (String × Value) :=
  row.toCondition.fields ++ [("relation", Relation.field row.relation)]

/-- A record with the given fields. -/
def recordOf (sparse : Bool) (fields : List (String × Value)) : Value :=
  let kept := if sparse then fields.filter fun (_, value) => !value.isNull else fields
  .object (Value.exchangeableFields (kept.map fun (name, value) => (recordName name, value)))

/-- The record of a condition. -/
def Condition.record (sparse : Bool) (c : Condition) : Value :=
  recordOf sparse c.fields

/-- The record of a row. -/
def Row.record (sparse : Bool) (row : Row) : Value :=
  recordOf sparse row.fields

namespace Node

mutual

/-- The record of a node in a tree, where a row is recorded as the condition that it states. -/
def record (sparse : Bool) : Node → Value
  | leaf l => l.condition.record sparse
  | group id relation children =>
      .object [("kind", .text "group"), ("id", .text id), ("relation", .text relation.keyword),
        ("children", .list (records sparse children))]

/-- The records of several nodes. -/
def records (sparse : Bool) : List Node → List Value
  | [] => []
  | child :: rest => child.record sparse :: records sparse rest

end

/-- The children of a group are recorded one by one. -/
theorem records_eq_map (sparse : Bool) (children : List Node) :
    records sparse children = children.map (record sparse) := by
  induction children with
  | nil => rfl
  | cons child rest ih => simp [records, ih]

/-- The record of a node that stands alone, where a row shows its relation. -/
def recordAlone (sparse : Bool) : Node → Value
  | leaf (.row row) => row.record sparse
  | node => node.record sparse

end Node

/-- The record of a tree. -/
def Tree.record (tree : Tree) : Value :=
  .object [("id", .text tree.id), ("root", tree.root.elim .null (Node.record false))]

end FilterQuery
