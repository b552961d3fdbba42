import FilterQuery.Node
import FilterQuery.Notice

/-!
# Normal filters

A filter is normal when every group in it has at least two children.  Normalizing drops the empty
groups and puts an only child in the place of its group, from the bottom up.  Pruning first takes
out the conditions that cannot be used.

Main results:

- `normalize_leaf`: conditions are normal.
- `normalize_group`, `prune_group`: what is left of the children of a group is grouped again.
- `regroup_cons_cons`: a group of two or more is kept.
- `regroup_eq_none_iff`, `regroup_eq_some_iff`: what children can be grouped to.
-/

namespace FilterQuery.Node

/-- A group of the given children; it is dropped when empty, and an only child takes its place. -/
def regroup (id : String) (relation : Relation) : List Node → Option Node
  | [] => none
  | [child] => some child
  | children => some (group id relation children)

/-- A group of two or more is kept. -/
@[simp]
theorem regroup_cons_cons (id : String) (relation : Relation) (first second : Node)
    (rest : List Node) :
    regroup id relation (first :: second :: rest) =
      some (group id relation (first :: second :: rest)) :=
  rfl

/-- So is a group of which it is known that it has two children. -/
theorem regroup_of_two_le {id : String} {relation : Relation} {children : List Node}
    (h : 2 ≤ children.length) :
    regroup id relation children = some (group id relation children) := by
  match children with
  | [] => simp at h
  | [_] => simp at h
  | first :: second :: rest => rfl

/-- Only of no children at all nothing is grouped. -/
theorem regroup_eq_none_iff (id : String) (relation : Relation) (children : List Node) :
    regroup id relation children = none ↔ children = [] := by
  match children with
  | [] => simp [regroup]
  | [child] => simp [regroup]
  | first :: second :: rest => simp

/-- What children are grouped to is their group, or the only one of them. -/
theorem regroup_eq_some_iff {id : String} {relation : Relation} {children : List Node}
    {node : Node} :
    regroup id relation children = some node ↔
      children = [node] ∨ 2 ≤ children.length ∧ group id relation children = node := by
  match children with
  | [] => simp [regroup]
  | [child] => simp [regroup]
  | first :: second :: rest => simp

mutual

/-- Whether every group has at least two children. -/
def isNormal : Node → Bool
  | leaf _ => true
  | group _ _ children => 2 ≤ children.length && areNormal children

/-- Whether several nodes are normal. -/
def areNormal : List Node → Bool
  | [] => true
  | child :: rest => child.isNormal && areNormal rest

end

mutual

/-- The normal form of a node, if anything is left of it. -/
def normalize : Node → Option Node
  | leaf l => some (leaf l)
  | group id relation children => regroup id relation (normalizeAll children)

/-- What is left of several nodes in normal form. -/
def normalizeAll : List Node → List Node
  | [] => []
  | child :: rest => child.normalize.toList ++ normalizeAll rest

end

mutual

/-- The normal form of a node without the conditions that cannot be used. -/
def prune : Node → Option Node
  | leaf l => if l.condition.isUsable then some (leaf l) else none
  | group id relation children => regroup id relation (pruneAll children)

/-- What is left of several nodes without the conditions that cannot be used. -/
def pruneAll : List Node → List Node
  | [] => []
  | child :: rest => child.prune.toList ++ pruneAll rest

end

/-- Conditions are normal. -/
@[simp]
theorem normalize_leaf (l : Leaf) : (leaf l).normalize = some (leaf l) := by
  rw [normalize]

/-- The children of a group are normalized one by one. -/
theorem normalizeAll_eq_filterMap (children : List Node) :
    normalizeAll children = children.filterMap normalize := by
  induction children with
  | nil => rfl
  | cons child rest ih => cases h : child.normalize <;> simp [normalizeAll, h, ih]

/-- The children of a group are pruned one by one. -/
theorem pruneAll_eq_filterMap (children : List Node) :
    pruneAll children = children.filterMap prune := by
  induction children with
  | nil => rfl
  | cons child rest ih => cases h : child.prune <;> simp [pruneAll, h, ih]

/-- A group is normalized by grouping its normalized children again. -/
theorem normalize_group (id : String) (relation : Relation) (children : List Node) :
    (group id relation children).normalize =
      regroup id relation (children.filterMap normalize) := by
  rw [normalize, normalizeAll_eq_filterMap]

/-- A group is pruned by grouping its pruned children again. -/
theorem prune_group (id : String) (relation : Relation) (children : List Node) :
    (group id relation children).prune = regroup id relation (children.filterMap prune) := by
  rw [prune, pruneAll_eq_filterMap]

end FilterQuery.Node

namespace FilterQuery.Tree

/-- The tree in normal form, or nothing if it is normal as it stands. -/
def normalized? (tree : Tree) : Option Tree :=
  match tree.root with
  | some root => if root.isNormal then none else some { tree with root := root.normalize }
  | none => none

end FilterQuery.Tree
