import FilterQuery.Node

/-!
# Finding nodes

A node is found by its identifier.  Where several nodes have the same one, the first in the order
of the walk is meant.  The path to a node lists the identifiers from the root down to it.

Main results:

- `find?_id`: the node that is found has the identifier that was asked for.
- `pathTo?_leaf`: the path to a leaf consists of the leaf alone.
-/

namespace FilterQuery

namespace Node

mutual

/-- The identifiers from a node down to the first node below it that has a given one. -/
def pathTo? (target : String) : Node → Option (List String)
  | leaf l => if l.condition.id = target then some [l.condition.id] else none
  | group id _ children =>
      if id = target then some [id] else (pathThrough? target children).map (id :: ·)

/-- The path through the first of several nodes that leads to the target. -/
def pathThrough? (target : String) : List Node → Option (List String)
  | [] => none
  | child :: rest =>
      match child.pathTo? target with
      | some path => some path
      | none => pathThrough? target rest

end

/-- The path to a leaf consists of the leaf alone. -/
theorem pathTo?_leaf (target : String) (l : Leaf) :
    (leaf l).pathTo? target = if l.condition.id = target then some [l.condition.id] else none := by
  rw [pathTo?]

end Node

namespace Tree

/-- The first node with an identifier. -/
def find? (tree : Tree) (id : String) : Option Node :=
  tree.walk.find? fun node => node.id == id

/-- Whether a node has an identifier. -/
def hasId (tree : Tree) (id : String) : Bool :=
  (tree.find? id).isSome

/-- The identifiers from the root down to a node, none if there is no such node. -/
def path (tree : Tree) (id : String) : List String :=
  (tree.root.bind (Node.pathTo? id)).getD []

/-- The identifiers in use, each once, in the order of the walk. -/
def ids (tree : Tree) : List String :=
  (tree.walk.map Node.id).foldl (fun seen id => if seen.contains id then seen else seen ++ [id]) []

/-- The node that is found has the identifier that was asked for. -/
theorem find?_id {tree : Tree} {id : String} {node : Node} (h : tree.find? id = some node) :
    node.id = id := by
  simpa using List.find?_some h

end Tree

end FilterQuery
