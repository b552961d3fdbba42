import FilterQuery.Condition.Clause
import FilterQuery.Node

/-!
# The clause of a node

A tree is lowered to a clause from its leaves upwards.  What cannot be used is left out, a group in
which one child is left is that child, and the parts of a group inside a group of the same relation
become parts of the outer one.  A nested clause thus stands exactly where the relation changes.
-/

namespace FilterQuery

/-- What a node is lowered to: the clause of a condition, or the parts of a group. -/
inductive Lowered where
  | single (clause : Clause)
  | joined (relation : Relation) (parts : List Clause)

namespace Lowered

/-- The clause that a node is lowered to. -/
def clause : Lowered → Clause
  | single clause => clause
  | joined relation parts => .junction relation parts

/-- The clauses that a child contributes to a group of a relation. -/
def contribution (relation : Relation) : Lowered → List Clause
  | single clause => [clause]
  | joined inner parts => if inner = relation then parts else [.junction inner parts]

/-- What is left of the children of a group, joined by its relation. -/
def join (relation : Relation) : List Lowered → Option Lowered
  | [] => none
  | [child] => some child
  | children => some (joined relation (children.flatMap (contribution relation)))

/-- Two children and more are joined to a group. -/
theorem join_cons_cons (relation : Relation) (first second : Lowered) (rest : List Lowered) :
    join relation (first :: second :: rest) =
      some (joined relation ((first :: second :: rest).flatMap (contribution relation))) :=
  rfl

end Lowered

namespace Node

mutual

/-- What a node is lowered to, if anything in it can be used. -/
def lower : Node → Compilation (Option Lowered)
  | leaf l => Option.map .single <$> l.condition.compile
  | group _ relation children => Lowered.join relation <$> lowerAll children

/-- What is left of several nodes. -/
def lowerAll : List Node → Compilation (List Lowered)
  | [] => pure []
  | child :: rest => do
      let first ← child.lower
      let others ← lowerAll rest
      return first.toList ++ others

end

/-- The clause of a node, if anything in it can be used. -/
def compile (node : Node) : Compilation (Option Clause) :=
  Option.map Lowered.clause <$> node.lower

end Node

end FilterQuery
