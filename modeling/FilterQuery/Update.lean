import FilterQuery.Reading.Condition

/-!
# Updates

An update names some fields and gives them new values; all other fields keep theirs.  It may use
either spelling of a field, and it cannot change what a thing is or how it is identified.  A field
that is named twice takes the later value.  The updated fields are read like any other data, so an
update can fail in the same ways.
-/

namespace FilterQuery

/-- What an update is made for. -/
inductive UpdateTarget where
  | condition
  | row
  | group
deriving DecidableEq, Repr

namespace UpdateTarget

/-- The spellings of the fields of a condition, with the plain name of each. -/
def conditionNames : List (String × String) :=
  [("field", "field"), ("operator", "operator"), ("value", "value"),
    ("min_operator", "min_operator"), ("minOperator", "min_operator"),
    ("min_value", "min_value"), ("minValue", "min_value"),
    ("max_operator", "max_operator"), ("maxOperator", "max_operator"),
    ("max_value", "max_value"), ("maxValue", "max_value")]

/-- The spellings of the fields that updates may name, with the plain name of each. -/
def names : UpdateTarget → List (String × String)
  | condition => conditionNames
  | row => conditionNames ++ [("relation", "relation"), ("logic", "relation")]
  | group => [("relation", "relation"), ("operator", "relation"), ("children", "children")]

/-- Takes over the value of a field by the plain name of the field, if updates may name it. -/
def take (target : UpdateTarget) (kept : List (String × Input)) (update : String × Input) :
    List (String × Input) :=
  match target.names.lookup update.1 with
  | some name => Input.set name update.2 kept
  | none => kept

/-- The new values by the plain names of their fields; other fields are left out. -/
def updates (target : UpdateTarget) (given : List (String × Input)) : List (String × Input) :=
  given.foldl target.take []

/-- Fields with an update applied to them. -/
def apply (target : UpdateTarget) (fields : List (String × Value))
    (given : List (String × Input)) : List (String × Input) :=
  (target.updates given).foldl (fun kept (name, input) => Input.set name input kept)
    (Input.ofFields fields)

end UpdateTarget

namespace Reading

/-- A row with an update applied to it. -/
def updatedRow (row : Row) (given : List (String × Input)) : Reading Row :=
  rowFields (UpdateTarget.row.apply row.fields given)

/-- A leaf with an update applied to it; a row in a tree stays a row. -/
def updatedLeaf (given : List (String × Input)) : Leaf → Reading Leaf
  | .plain c => Leaf.plain <$> condition (UpdateTarget.condition.apply c.fields given)
  | .row r => Leaf.row <$> updatedRow r given

end Reading

end FilterQuery
