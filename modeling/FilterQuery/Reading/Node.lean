import FilterQuery.Reading.Condition

/-!
# Reading filter trees

A node says its kind; one that does not is a group if it has children and a condition otherwise.
The relation of a group is also read from the field `operator`.  It is "and" where it is missing,
and the default relation of the settings where it is given but empty.

Main results:

- `node_built`: a node that was built before is taken as it is.
-/

namespace FilterQuery.Reading

/-- What the fields of an object describe. -/
inductive Kind where
  | condition
  | group
deriving DecidableEq, Repr

/-- The kind of a node, unless it says that it is of a kind which does not exist. -/
def kindOf? (fields : List (String × Input)) : Option Kind :=
  match Input.get? "kind" fields with
  | some input =>
      if input.isPresent then
        match input with
        | .text "condition" => some .condition
        | .text "group" => some .group
        | _ => none
      else if (Input.get? "children" fields).isSome then some .group
      else some .condition
  | none => if (Input.get? "children" fields).isSome then some .group else some .condition

/-- The relation of a group. -/
def groupRelation (default : Relation) (fields : List (String × Input)) : Reading Relation :=
  field ["relation", "operator"] fields (pure .and) fun input =>
    (fun given : Option Relation => given.getD default) <$> relation input

mutual

/-- A node. -/
def node (default : Relation) : Input → Reading Node
  | .node n => pure n
  | .object fields =>
      match kindOf? fields with
      | some .condition =>
          within (.field "condition") ((fun c => Node.leaf (.plain c)) <$> condition fields)
      | some .group =>
          within (.field "group")
            ((fun _ id relation children => Node.group id relation children)
              <$> kind "group" fields
              <*> identifier fields
              <*> groupRelation default fields
              <*> childrenField default fields)
      | none => fail .unknownKind
  | _ => within (.field "condition") (fail .notObject)

/-- The children among the fields of a group. -/
def childrenField (default : Relation) : List (String × Input) → Reading (List Node)
  | [] => pure []
  | (key, input) :: rest =>
      if key = "children" then within (.field "children") (children default input)
      else childrenField default rest

/-- A list of nodes. -/
def children (default : Relation) : Input → Reading (List Node)
  | .list items => nodesFrom default 0 items
  | _ => fail .notList

/-- Nodes one after the other, counted from `index`. -/
def nodesFrom (default : Relation) (index : Nat) : List Input → Reading (List Node)
  | [] => pure []
  | input :: rest =>
      List.cons <$> within (.item index) (node default input) <*> nodesFrom default (index + 1) rest

end

/-- A tree, whose root may be missing. -/
def tree (default : Relation) : Input → Reading Tree
  | .object fields =>
      Tree.mk <$> identifier fields
        <*> field ["root"] fields (pure none) fun
          | .null => pure none
          | input => some <$> node default input
  | _ => fail .notObject

/-- A node that was built before is taken as it is. -/
@[simp]
theorem node_built (default : Relation) (n : Node) : node default (.node n) = pure n := by
  simp [node]

end FilterQuery.Reading
