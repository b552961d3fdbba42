import FilterQuery.Proofs.Tree.WellFormed

/-!
# Restricted trees

A tree is restricted to some of its leaves by taking out the other ones and bringing what is left
into normal form, in one walk.  The normal form of a tree is its restriction to all leaves, and
pruning restricts a tree to the leaves that can be used.  One restriction after the other is the
restriction to the leaves that both of them keep, so it does not matter how often and in which
order this is done.

Main results:

- `normalize_eq_restrict`, `prune_eq_restrict`: normal forms and pruned nodes are restrictions.
- `prune_group_eq_normalize`: a group is pruned by bringing the group of its pruned children into
  normal form.
- `restrict_restrict`: one restriction after the other is one restriction.
- `restrict_eq_none_iff`, `isNormal_restrict`, `leaves_restrict`: what is left in a restriction.
- `restrict_eq_self_iff`: when a node is its own restriction.
-/

namespace FilterQuery.Node

/-! ## Restricting -/

mutual

/-- What is left of a node in normal form when only some of its leaves are kept. -/
def restrict (keep : Leaf → Bool) : Node → Option Node
  | leaf l => if keep l then some (leaf l) else none
  | group id relation children => regroup id relation (restrictAll keep children)

/-- What is left of several nodes when only some of their leaves are kept. -/
def restrictAll (keep : Leaf → Bool) : List Node → List Node
  | [] => []
  | child :: rest => (child.restrict keep).toList ++ restrictAll keep rest

end

variable {keep other : Leaf → Bool}

/-- The children of a group are restricted one by one. -/
theorem restrictAll_eq_filterMap (children : List Node) :
    restrictAll keep children = children.filterMap (restrict keep) := by
  induction children with
  | nil => rfl
  | cons child rest ih => cases h : child.restrict keep <;> simp [restrictAll, h, ih]

/-- What is left of the children of a group is grouped again. -/
theorem restrict_group (id : String) (relation : Relation) (children : List Node) :
    (group id relation children).restrict keep =
      regroup id relation (children.filterMap (restrict keep)) := by
  rw [restrict, restrictAll_eq_filterMap]

/-- Only the leaves of a node make a difference to its restriction. -/
theorem restrict_congr {node : Node} (h : ∀ l ∈ node.leaves, keep l = other l) :
    node.restrict keep = node.restrict other := by
  induction node with
  | leaf l =>
      have hl : keep l = other l := h l (by simp [leaves_leaf])
      rw [restrict, restrict, hl]
  | group id relation children ih =>
      rw [leaves_group] at h
      have hchildren : ∀ child ∈ children, child.restrict keep = child.restrict other := by
        intro child hchild
        apply ih child hchild
        intro l hl
        exact h l (List.mem_flatMap.mpr ⟨child, hchild, hl⟩)
      rw [restrict_group, restrict_group, List.filterMap_congr hchildren]

/-- Children that are grouped again are restricted as children. -/
theorem restrict_regroup (id : String) (relation : Relation) (children : List Node) :
    (regroup id relation children).bind (restrict keep) =
      regroup id relation (children.filterMap (restrict keep)) := by
  match children with
  | [] => rfl
  | [child] => cases h : child.restrict keep <;> simp [regroup, h]
  | first :: second :: rest => rw [regroup_cons_cons, Option.bind_some, restrict_group]

/-- One restriction after the other keeps the leaves that both of them keep. -/
theorem restrict_restrict (node : Node) :
    (node.restrict keep).bind (restrict other) = node.restrict fun l => keep l && other l := by
  induction node with
  | leaf l => cases h : keep l <;> simp [restrict, h]
  | group id relation children ih =>
      rw [restrict_group, restrict_regroup, List.filterMap_filterMap, List.filterMap_congr ih,
        restrict_group]

/-! ## Normal and pruned nodes -/

/-- The normal form of a node keeps all of its leaves. -/
theorem normalize_eq_restrict (node : Node) : node.normalize = node.restrict fun _ => true := by
  induction node with
  | leaf l => rw [normalize_leaf, restrict, if_pos rfl]
  | group id relation children ih =>
      rw [normalize_group, restrict_group, List.filterMap_congr ih]

/-- Pruning a node keeps the leaves that can be used. -/
theorem prune_eq_restrict (node : Node) :
    node.prune = node.restrict fun l => l.condition.isUsable := by
  induction node with
  | leaf l => rw [prune, restrict]
  | group id relation children ih =>
      rw [prune_group, restrict_group, List.filterMap_congr ih]

/-- A restriction of the normal form is a restriction of the node. -/
theorem normalize_bind_restrict (node : Node) :
    node.normalize.bind (restrict keep) = node.restrict keep := by
  rw [normalize_eq_restrict, restrict_restrict]
  simp only [Bool.true_and]

/-- A restriction is in normal form. -/
theorem restrict_bind_normalize (node : Node) :
    (node.restrict keep).bind normalize = node.restrict keep := by
  have hnormalize : normalize = restrict fun _ => true := funext normalize_eq_restrict
  rw [hnormalize, restrict_restrict]
  simp only [Bool.and_true]

/-- A group is pruned by bringing the group of its pruned children into normal form. -/
theorem prune_group_eq_normalize (id : String) (relation : Relation) (children : List Node) :
    (group id relation children).prune =
      (group id relation (children.filterMap prune)).normalize := by
  have hchildren : ∀ child ∈ children, child.prune.bind normalize = child.prune := by
    intro child _
    rw [prune_eq_restrict, restrict_bind_normalize]
  rw [normalize_group, List.filterMap_filterMap, List.filterMap_congr hchildren, prune_group]

/-! ## What is left -/

/-- Nothing is left of a node exactly when none of its leaves is kept. -/
theorem restrict_eq_none_iff (node : Node) :
    node.restrict keep = none ↔ ∀ l ∈ node.leaves, keep l = false := by
  induction node with
  | leaf l => simp [restrict, leaves_leaf]
  | group id relation children ih =>
      rw [restrict_group, regroup_eq_none_iff, List.filterMap_eq_nil_iff, leaves_group,
        List.forall_mem_flatMap]
      exact forall₂_congr ih

/-- What is left of a node is normal. -/
theorem isNormal_restrict (node : Node) :
    ∀ left ∈ node.restrict keep, left.isNormal = true := by
  induction node with
  | leaf l =>
      intro left hleft
      rw [restrict, Option.mem_def, Option.ite_none_right_eq_some] at hleft
      rw [← Option.some.inj hleft.2, isNormal]
  | group id relation children ih =>
      have hchildren : ∀ child ∈ children.filterMap (restrict keep), child.isNormal = true :=
        List.forall_mem_filterMap.mpr ih
      rw [restrict_group]
      refine forall_mem_regroup hchildren fun hlength => ?_
      exact (isNormal_group id relation _).mpr ⟨hlength, hchildren⟩

/-- Children that are grouped again keep their leaves. -/
theorem leaves_regroup (id : String) (relation : Relation) (children : List Node) :
    (regroup id relation children).elim [] leaves = children.flatMap leaves := by
  match children with
  | [] => rfl
  | [child] => simp [regroup]
  | first :: second :: rest => rw [regroup_cons_cons, Option.elim_some, leaves_group]

/-- What is left of a node has the leaves that are kept, in their order. -/
theorem leaves_restrict (node : Node) :
    (node.restrict keep).elim [] leaves = node.leaves.filter keep := by
  induction node with
  | leaf l => cases h : keep l <;> simp [restrict, leaves_leaf, h]
  | group id relation children ih =>
      rw [restrict_group, leaves_regroup, flatMap_filterMap, List.flatMap_congr ih, leaves_group,
        List.filter_flatMap]

/-- No identifier comes in when a node is restricted. -/
theorem sublist_ids_restrict (keep : Leaf → Bool) (node : Node) :
    ((node.restrict keep).elim [] ids).Sublist node.ids := by
  induction node with
  | leaf l => cases h : keep l <;> simp [restrict, h]
  | group id relation children ih =>
      rw [restrict_group, ids_group]
      exact (sublist_ids_regroup id relation _).trans ((sublist_flatMap_filterMap ih).cons_cons id)

/-- A node is its own restriction exactly when it is normal and all of its leaves are kept. -/
theorem restrict_eq_self_iff (node : Node) :
    node.restrict keep = some node ↔
      node.isNormal = true ∧ ∀ l ∈ node.leaves, keep l = true := by
  constructor
  · intro h
    have hleaves : (node.restrict keep).elim [] leaves = node.leaves.filter keep :=
      node.leaves_restrict
    rw [h, Option.elim_some] at hleaves
    exact ⟨node.isNormal_restrict node h, List.filter_eq_self.mp hleaves.symm⟩
  · rintro ⟨hnormal, hleaves⟩
    rw [restrict_congr hleaves, ← normalize_eq_restrict, normalize_of_isNormal hnormal]

end FilterQuery.Node
