import FilterQuery.Condition

/-!
# Filter trees

A filter is a tree: its leaves are conditions, and its groups join their children by a relation.
Groups of any shape can be described, also empty ones and ones with a single child.  A leaf is a
plain condition or a row that was put into a tree as it was; a row keeps its own relation there,
although the tree makes no use of it.

Main results:

- `Node.induction`: what passes from the children of a group to the group holds of every node.
- `Node.walk_group`: the walk through a group visits the group, then its children in order.
-/

namespace FilterQuery

/-- A leaf of a filter tree. -/
inductive Leaf where
  | plain (c : Condition)
  | row (r : Row)

namespace Leaf

/-- The condition that a leaf states. -/
def condition : Leaf → Condition
  | plain c => c
  | row r => r.toCondition

/-- Whether a leaf is a plain condition. -/
def isPlain : Leaf → Bool
  | plain _ => true
  | row _ => false

@[simp]
theorem condition_plain (c : Condition) : (plain c).condition = c :=
  rfl

@[simp]
theorem isPlain_plain (c : Condition) : (plain c).isPlain = true :=
  rfl

end Leaf

/-- A filter: a condition, or a group of filters. -/
inductive Node where
  | leaf (l : Leaf)
  | group (id : String) (relation : Relation) (children : List Node)

/-- A filter that may still be empty. -/
structure Tree where
  id : String
  root : Option Node := none

namespace Node

instance : Inhabited Node := ⟨group "" .and []⟩

/-- What holds of every leaf, and passes from the children of a group to the group, holds of every
node. -/
@[elab_as_elim, induction_eliminator]
theorem induction {motive : Node → Prop} (leaf : ∀ l, motive (leaf l))
    (group : ∀ id relation children, (∀ child ∈ children, motive child) →
      motive (group id relation children)) : ∀ node, motive node
  | .leaf l => leaf l
  | .group id relation children =>
      group id relation children fun child _ => induction leaf group child

/-- The identifier of a node. -/
def id : Node → String
  | leaf l => l.condition.id
  | group id _ _ => id

mutual

/-- A node and all nodes below it, each before its children. -/
def walk : Node → List Node
  | leaf l => [leaf l]
  | group id relation children => group id relation children :: walkAll children

/-- The walks through several nodes, one after the other. -/
def walkAll : List Node → List Node
  | [] => []
  | child :: rest => child.walk ++ walkAll rest

end

/-- Going through the children one by one joins their walks. -/
theorem walkAll_eq_flatMap (children : List Node) : walkAll children = children.flatMap walk := by
  induction children with
  | nil => rfl
  | cons child rest ih => simp [walkAll, ih]

/-- The walk through a group visits the group, then its children in order. -/
theorem walk_group (id : String) (relation : Relation) (children : List Node) :
    (group id relation children).walk = group id relation children :: children.flatMap walk := by
  rw [walk, walkAll_eq_flatMap]

/-- The leaf that a node is, if it is one. -/
def leaf? : Node → Option Leaf
  | leaf l => some l
  | group _ _ _ => none

/-- The leaves of a node in the order of its walk. -/
def leaves (node : Node) : List Leaf :=
  node.walk.filterMap leaf?

/-- The conditions of a node in the order of its walk. -/
def conditions (node : Node) : List Condition :=
  node.leaves.map Leaf.condition

/-- The leaves of a group are those of its children. -/
theorem leaves_group (id : String) (relation : Relation) (children : List Node) :
    (group id relation children).leaves = children.flatMap leaves := by
  have hgroup : leaf? (group id relation children) = none := rfl
  rw [leaves, walk_group, List.filterMap_cons_none hgroup, List.filterMap_flatMap]
  rfl

/-- A leaf is the only leaf that it has. -/
theorem leaves_leaf (l : Leaf) : (leaf l).leaves = [l] := by
  rw [leaves, walk]
  rfl

/-- A leaf has the condition that it states. -/
theorem conditions_leaf (l : Leaf) : (leaf l).conditions = [l.condition] := by
  rw [conditions, leaves_leaf, List.map_singleton]

/-- The conditions of a group are those of its children. -/
theorem conditions_group (id : String) (relation : Relation) (children : List Node) :
    (group id relation children).conditions = children.flatMap conditions := by
  rw [conditions, leaves_group, List.map_flatMap]
  rfl

end Node

namespace Tree

/-- All nodes of a tree, each before its children. -/
def walk (tree : Tree) : List Node :=
  tree.root.elim [] Node.walk

/-- Whether a tree has no filter. -/
def isEmpty (tree : Tree) : Bool :=
  tree.root.isNone

end Tree

end FilterQuery
