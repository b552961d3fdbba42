import FilterQuery.Proofs.Formula.Tree
import FilterQuery.Proofs.Tree.Place

/-!
# Formulas of trees that grow

Attaching a node extends a group or makes a new one, and the formula does not tell the two apart: a
group of the same relation is taken apart when it is joined.  A node without a formula leaves that
of the tree as it is, wherever it is attached.

Main results:

- `formula?_extended`: a group that is extended has the formula of a new group around it.
- `formula?_fill_congr`: nodes with the same formula may stand for each other anywhere in a tree.
- `formula?_attach_of_eq_none`: a node without a formula is attached without a trace.
-/

namespace FilterQuery.Node

variable {target : String} {relation : Relation} {added : Node}

/-- A group with one more child has the formula of a group of both. -/
theorem formula?_extended (id outer : String) (relation : Relation) (children : List Node)
    (added : Node) :
    (group id relation (children ++ [added])).formula? =
      (group outer relation [group id relation children, added]).formula? := by
  have houter : [group id relation children, added].filterMap formula? =
      (group id relation children).formula?.toList ++ [added].filterMap formula? := by
    cases h : (group id relation children).formula? <;> simp [h]
  rw [formula?_group outer, houter, formula?_group, formula?_group, List.filterMap_append,
    Formula.join_append]

/-- Nodes with the same formula may stand for each other anywhere in a tree. -/
theorem formula?_fill_congr {first second : Node} (h : first.formula? = second.formula?)
    (place : Place) : (place.fill first).formula? = (place.fill second).formula? := by
  induction place with
  | nil => exact h
  | cons frame inside ih =>
      simp only [Place.fill_cons, Frame.fill, formula?_group, List.filterMap_append,
        List.filterMap_cons, ih]

/-- A node without a formula is attached without a trace, also where the identifier occurs more than
once. -/
theorem formula?_attach_of_eq_none (h : added.formula? = none) (node : Node) (ids : IdSupply) :
    (attach target relation added ids node).1.formula? = node.formula? := by
  refine attach_induction (motive := fun old new _ => new.formula? = old.formula?)
    ?kept ?extended ?wrapped ?inside node ids
  case kept => exact fun _ _ => rfl
  case extended =>
    intro children
    rw [formula?_group, formula?_group, List.filterMap_append, List.filterMap_cons_none h,
      List.filterMap_nil, List.append_nil]
  case wrapped =>
    intro old id _
    rw [formula?_group]
    cases hold : old.formula? <;> simp [hold, h]
  case inside =>
    intro id inner children changed _ hchanged
    have hformulas : (changed.map Prod.fst).filterMap formula? = children.filterMap formula? := by
      induction hchanged with
      | nil => rfl
      | cons hchild _ ih => simp only [List.map_cons, List.filterMap_cons, hchild, ih]
    rw [formula?_group, formula?_group, hformulas]

end FilterQuery.Node
