import FilterQuery.Tree.Lookup
import FilterQuery.Tree.Normal
import FilterQuery.Update

/-!
# Editing filter trees

An edit makes a new tree out of a tree, or leaves it as it is: an identifier that is not there is
not an error.  What is added or changed is read from outside data, so an edit can fail.

A condition is combined with a node of the tree.  If the node is a group of the asked relation the
condition becomes its last child; otherwise the node and the condition form a new group in its
place.  Removing a node normalizes the tree.

Main results:

- `remove_of_not_hasId`: removing what is not there leaves the tree as it is.
- `Edit.perform_some`: where there is a tree, an edit is performed on it.
-/

namespace FilterQuery

/-! ## Changes below a node -/

namespace Node

mutual

/-- Combines every topmost node of an identifier with a new node. -/
def attach (target : String) (relation : Relation) (added : Node) (ids : IdSupply) :
    Node → Node × IdSupply
  | leaf l =>
      if l.condition.id = target then
        let (id, ids) := ids.mint
        (group id relation [leaf l, added], ids)
      else (leaf l, ids)
  | group id inner children =>
      if id = target then
        if inner = relation then (group id inner (children ++ [added]), ids)
        else
          let (outer, ids) := ids.mint
          (group outer relation [group id inner children, added], ids)
      else
        let (attached, ids) := attachAll target relation added ids children
        (group id inner attached, ids)

/-- Combines nodes below several nodes with a new node. -/
def attachAll (target : String) (relation : Relation) (added : Node) (ids : IdSupply) :
    List Node → List Node × IdSupply
  | [] => ([], ids)
  | child :: rest =>
      let (first, ids) := attach target relation added ids child
      let (others, ids) := attachAll target relation added ids rest
      (first :: others, ids)

end

mutual

/-- Applies an update to every topmost node of an identifier; a group takes the relation, if one
is given. -/
def modify (target : String) (relation : Option Relation) (given : List (String × Input))
    (ids : IdSupply) : Node → Except Error (Node × IdSupply)
  | leaf l =>
      if l.condition.id = target then
        (Reading.call (Reading.updatedLeaf given l) ids).map fun (l, ids) => (leaf l, ids)
      else .ok (leaf l, ids)
  | group id inner children =>
      if id = target then .ok (group id (relation.getD inner) children, ids)
      else
        (modifyAll target relation given ids children).map fun (children, ids) =>
          (group id inner children, ids)

/-- Applies an update below several nodes. -/
def modifyAll (target : String) (relation : Option Relation) (given : List (String × Input))
    (ids : IdSupply) : List Node → Except Error (List Node × IdSupply)
  | [] => .ok ([], ids)
  | child :: rest => do
      let (first, ids) ← modify target relation given ids child
      let (others, ids) ← modifyAll target relation given ids rest
      return (first :: others, ids)

end

mutual

/-- Takes out every node of an identifier. -/
def remove (target : String) : Node → Option Node
  | leaf l => if l.condition.id = target then none else some (leaf l)
  | group id relation children =>
      if id = target then none else some (group id relation (removeAll target children))

/-- Takes nodes out of several nodes. -/
def removeAll (target : String) : List Node → List Node
  | [] => []
  | child :: rest => (child.remove target).toList ++ removeAll target rest

end

mutual

/-- Flips the relation of every topmost group of an identifier. -/
def toggle (target : String) : Node → Node
  | leaf l => leaf l
  | group id relation children =>
      if id = target then group id relation.flipped children
      else group id relation (toggleAll target children)

/-- Flips relations below several nodes. -/
def toggleAll (target : String) : List Node → List Node
  | [] => []
  | child :: rest => child.toggle target :: toggleAll target rest

end

end Node

/-! ## Edits of a tree -/

/-- A condition to be put into a tree.  A row is taken as the condition that it states. -/
def Reading.treeCondition : Input → Reading Condition
  | .object fields => condition fields
  | .node (.leaf l) => pure l.condition
  | .node (.group _ _ _) => within (.field "kind") (fail .notAnOption)
  | _ => fail .notObject

/-- What may be asked of a tree.  Relations, conditions and updates come from outside. -/
inductive Edit where
  /-- Starts over with one condition. -/
  | start (condition : Input)
  /-- Combines a new condition with a node. -/
  | add (parent : Option String) (relation condition : Input)
  /-- Updates a condition, or sets the relation of a group. -/
  | modify (node : String) (relation updates : Input)
  /-- Takes out a node. -/
  | remove (node : String)
  /-- Flips the relation of a group. -/
  | toggle (node : String)
  /-- Takes out a node and combines it with another one. -/
  | move (node target : String) (relation : Input)
  /-- Starts over with an empty tree. -/
  | reset

namespace Tree

/-- A tree with a new identifier. -/
def new (root : Option Node) (ids : IdSupply) : Tree × IdSupply :=
  let (id, ids) := ids.mint
  ({ id, root }, ids)

/-- The identifier of what comes into a tree: its own one, or a new one where that is taken. -/
def unusedId (tree : Tree) (id : String) (ids : IdSupply) : String × IdSupply :=
  if tree.hasId id then ids.mint else (id, ids)

/-- Combines a new condition with the node `parent`.  In an empty tree it becomes the root.  A
condition whose identifier is taken gets a new one, and a relation that was left out is "and". -/
def add (tree : Tree) (parent : Option String) (relation condition : Input) (ids : IdSupply) :
    Except Error (Option Tree × IdSupply) := do
  let (added, ids) ← Reading.call (Reading.treeCondition condition) ids
  match tree.root, parent with
  | none, _ => return (some { tree with root := some (.leaf (.plain added)) }, ids)
  | some _, none => return (none, ids)
  | some root, some parent =>
      if tree.hasId parent then
        let (id, ids) := tree.unusedId added.id ids
        let relation ← Relation.resolve relation
        let added := Node.leaf (.plain { added with id })
        let (root, ids) := Node.attach parent (relation.getD .and) added ids root
        return (some { tree with root := some root }, ids)
      else return (none, ids)

/-- The fields that an update names; an update that was left out names none. -/
def updateFields : Input → List (String × Input)
  | .object fields => fields
  | _ => []

/-- Updates the conditions with an identifier, or sets the relation of the groups with it. -/
def modify (tree : Tree) (node : String) (relation updates : Input) (ids : IdSupply) :
    Except Error (Option Tree × IdSupply) :=
  match tree.root with
  | some root =>
      if tree.hasId node then do
        let relation ← Relation.resolve relation
        let (root, ids) ← root.modify node relation (updateFields updates) ids
        return (some { tree with root := some root }, ids)
      else .ok (none, ids)
  | none => .ok (none, ids)

/-- Takes out the nodes with an identifier and normalizes the tree. -/
def remove (tree : Tree) (node : String) : Option Tree :=
  match tree.root with
  | some root =>
      if tree.hasId node then some { tree with root := (root.remove node).bind Node.normalize }
      else none
  | none => none

/-- Flips the relation of the groups with an identifier.  Conditions are left alone. -/
def toggle (tree : Tree) (node : String) : Option Tree :=
  match tree.root, tree.find? node with
  | some root, some (.group _ _ _) => some { tree with root := some (root.toggle node) }
  | _, _ => none

/-- Takes out a node and combines it with another one, unless that one is the node itself, lies
inside it or vanishes with it. -/
def move (tree : Tree) (node target : String) (relation : Input) (ids : IdSupply) :
    Except Error (Option Tree × IdSupply) :=
  match tree.find? node with
  | none => .ok (none, ids)
  | some moving =>
      if node = target || !tree.hasId target || moving.walk.any (·.id == target) then
        .ok (none, ids)
      else
        let detached := (tree.remove node).getD tree
        match detached.root with
        | some root =>
            if detached.hasId target then do
              let relation ← Relation.resolve relation
              let (root, ids) := Node.attach target (relation.getD .and) moving ids root
              return (some { detached with root := some root }, ids)
            else .ok (none, ids)
        | none => .ok (none, ids)

/-- A tree whose root is a condition from outside. -/
def start (condition : Input) (ids : IdSupply) : Except Error (Tree × IdSupply) :=
  (Reading.call (Reading.treeCondition condition) ids).map fun (condition, ids) =>
    new (some (.leaf (.plain condition))) ids

/-- Performs an edit: the new tree, or nothing if the tree stays as it is. -/
def perform (tree : Tree) (ids : IdSupply) : Edit → Except Error (Option Tree × IdSupply)
  | .start condition => (start condition ids).map fun (tree, ids) => (some tree, ids)
  | .add parent relation condition => tree.add parent relation condition ids
  | .modify node relation updates => tree.modify node relation updates ids
  | .remove node => .ok (tree.remove node, ids)
  | .toggle node => .ok (tree.toggle node, ids)
  | .move node target relation => tree.move node target relation ids
  | .reset =>
      let (tree, ids) := new none ids
      .ok (some tree, ids)

/-- Removing what is not there leaves the tree as it is. -/
theorem remove_of_not_hasId {tree : Tree} {node : String} (h : tree.hasId node = false) :
    tree.remove node = none := by
  unfold remove
  split <;> simp [h]

end Tree

/-- Performs an edit where there may be no tree.  An edit that starts over makes a tree out of none;
any other one fails, once the condition that it adds is read. -/
def Edit.perform (edit : Edit) (ids : IdSupply) :
    Option Tree → Except Error (Option Tree × IdSupply)
  | some tree => tree.perform ids edit
  | none =>
      match edit with
      | .start condition => (Tree.start condition ids).map fun (tree, ids) => (some tree, ids)
      | .reset =>
          let (tree, ids) := Tree.new none ids
          .ok (some tree, ids)
      | .add _ _ condition => do
          let _ ← Reading.call (Reading.treeCondition condition) ids
          throw .noTree
      | _ => .error .noTree

/-- Where there is a tree, an edit is performed on it. -/
@[simp]
theorem Edit.perform_some (edit : Edit) (ids : IdSupply) (tree : Tree) :
    edit.perform ids (some tree) = tree.perform ids edit :=
  rfl

end FilterQuery
