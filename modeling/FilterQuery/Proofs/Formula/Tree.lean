import FilterQuery.Node
import FilterQuery.Notice
import FilterQuery.Proofs.Formula

/-!
# Formulas of trees

The usable conditions of a tree form a formula, of which the groups are those where the relation
changes.  It depends on the tree alone.  A walk that joins what it makes of the children of a group
makes of a tree what it makes of the formula.

Main results:

- `alternating_of_formula?`: the formula of a tree is alternating.
- `atoms_formula?`: its atoms are the usable conditions of the tree, in order.
- `walk_eq_read_formula?`: a walk through a tree is a reading of its formula.
-/

namespace FilterQuery.Node

variable {α β ε : Type}

mutual

/-- The formula of a node, if anything in it can be used. -/
def formula? : Node → Option (Formula Comparison)
  | leaf l => l.condition.comparison?.map .atom
  | group _ relation children => Formula.join relation (formulas children)

/-- The formulas of several nodes. -/
def formulas : List Node → List (Formula Comparison)
  | [] => []
  | child :: rest => child.formula?.toList ++ formulas rest

end

/-- A condition forms an atom if it can be used. -/
theorem formula?_leaf (l : Leaf) :
    (leaf l).formula? = l.condition.comparison?.map .atom := by
  rw [formula?]

/-- The formula of a group joins those of its children. -/
theorem formula?_group (id : String) (relation : Relation) (children : List Node) :
    (group id relation children).formula? =
      Formula.join relation (children.filterMap formula?) := by
  rw [formula?]
  congr 1
  induction children with
  | nil => rfl
  | cons child rest ih => cases h : child.formula? <;> simp [formulas, h, ih]

/-- The formula of a tree is alternating. -/
theorem alternating_of_formula? {node : Node} {formula : Formula Comparison}
    (h : node.formula? = some formula) : formula.Alternating := by
  induction node generalizing formula with
  | leaf l =>
      rw [formula?_leaf] at h
      rcases Option.map_eq_some_iff.mp h with ⟨comparison, _, rfl⟩
      exact .atom comparison
  | group id relation children ih =>
      rw [formula?_group] at h
      refine Formula.alternating_of_mem_join ?_ h
      intro part hpart
      rcases List.mem_filterMap.mp hpart with ⟨child, hchild, hformula⟩
      exact ih child hchild hformula

/-- The atoms of the formula of a tree are the usable conditions of the tree, in order. -/
theorem atoms_formula? (node : Node) :
    node.formula?.elim [] Formula.atoms = node.conditions.filterMap Condition.comparison? := by
  induction node with
  | leaf l =>
      rw [formula?_leaf]
      cases h : l.condition.comparison? <;>
        simp [conditions, leaves, walk, leaf?, Formula.atoms, h]
  | group id relation children ih =>
      rw [formula?_group, Formula.atoms_join, conditions_group, List.filterMap_flatMap]
      induction children with
      | nil => rfl
      | cons child rest ihrest =>
          have hchild := ih child (by simp)
          have hrest := ihrest fun other hother => ih other (List.mem_cons_of_mem _ hother)
          rw [List.flatMap_cons, ← hrest, ← hchild]
          cases h : child.formula? <;> simp [h]

/-- A node has no formula exactly when none of its conditions can be used. -/
theorem formula?_eq_none_iff (node : Node) :
    node.formula? = none ↔ ∀ c ∈ node.conditions, c.isUsable = false := by
  have hatoms := node.atoms_formula?
  constructor
  · intro hnone c hc
    rw [hnone, Option.elim_none, eq_comm, List.filterMap_eq_nil_iff] at hatoms
    simp [Condition.isUsable, hatoms c hc]
  · intro hunusable
    have hnil : node.conditions.filterMap Condition.comparison? = [] := by
      rw [List.filterMap_eq_nil_iff]
      intro c hc
      simpa [Condition.isUsable] using hunusable c hc
    cases hformula : node.formula? with
    | none => rfl
    | some formula =>
        rw [hformula, hnil, Option.elim_some] at hatoms
        exact absurd hatoms (alternating_of_formula? hformula).atoms_ne_nil

/-- A walk through a tree is a reading of its formula, if it joins what it makes of the children
of a group in the way in which the reading joins formulas. -/
theorem walk_eq_read_formula? (walk : Node → Except ε (Option β)) {atom : Comparison → Except ε α}
    {read : Formula α → β} {join : Relation → List β → Option β}
    (hleaf : ∀ l, walk (leaf l) =
      l.condition.comparison?.mapM fun comparison => (fun a => read (.atom a)) <$> atom comparison)
    (hgroup : ∀ id relation children, walk (group id relation children) =
      (fun results => join relation results.reduceOption) <$> children.mapM walk)
    (hjoin : ∀ relation (formulas : List (Formula α)), (∀ part ∈ formulas, part.Alternating) →
      join relation (formulas.map read) = (Formula.join relation formulas).map read)
    (node : Node) :
    walk node = Option.map read <$> node.formula?.mapM (Formula.traverse atom) := by
  induction node with
  | leaf l =>
      rw [hleaf, formula?_leaf]
      cases h : l.condition.comparison? with
      | none => rfl
      | some comparison => simp [Formula.traverse]
  | group id relation children ih =>
      rw [hgroup, Traversal.mapM_congr ih, Traversal.mapM_map_result, formula?_group,
        Formula.join_traverse]
      -- The walk fails exactly where the traversal of the formula does.
      have hkept := Traversal.mapM_filterMap formula? (Formula.traverse atom) children
      cases hresults : children.mapM fun child => child.formula?.mapM (Formula.traverse atom) with
      | error e =>
          rw [hresults] at hkept
          rw [hkept]
          rfl
      | ok results =>
          rw [hresults] at hkept
          rw [hkept]
          have halternating : ∀ part ∈ results.reduceOption, part.Alternating := by
            intro part hpart
            obtain ⟨formula, hformula, htraverse⟩ :=
              Traversal.exists_mem_of_mapM_eq_ok hkept hpart
            rcases List.mem_filterMap.mp hformula with ⟨child, _, hchild⟩
            exact (alternating_of_formula? hchild).of_traverse htraverse
          have hread := hjoin relation results.reduceOption halternating
          rw [← List.reduceOption_map] at hread
          exact congrArg Except.ok hread

end FilterQuery.Node
