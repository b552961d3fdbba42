import FilterQuery.Tree.Edit
import Mathlib.Data.List.Flatten
import Mathlib.Data.List.Perm.Subperm

/-!
# Well-formed trees

In a well-formed tree no identifier occurs twice, every group has two children or more, and the
leaves are plain conditions.  Taking nodes out keeps the identifiers apart and the leaves plain;
normalizing puts the groups right again.

Main results:

- `sublist_ids_remove`, `sublist_ids_normalize`: no identifier comes in when nodes go out.
- `subperm_ids_remove`: what is taken out and what stays share no identifier.
- `allProper_normalize`: a normalized node with plain leaves is proper throughout.
- `normalize_of_isNormal`: a node that is normal is its own normal form.
- `Tree.wellFormed_some`: a tree is well-formed when its root is.
-/

open scoped List

namespace FilterQuery

namespace Node

/-! ## Identifiers and shape -/

/-- The identifiers of a node and of all nodes below it. -/
def ids (node : Node) : List String :=
  node.walk.map id

@[simp]
theorem ids_leaf (l : Leaf) : (leaf l).ids = [l.condition.id] := by
  simp [ids, walk, id]

/-- The identifiers of a group are its own and those of its children. -/
@[simp]
theorem ids_group (id : String) (relation : Relation) (children : List Node) :
    (group id relation children).ids = id :: children.flatMap ids := by
  simp only [ids, walk_group, List.map_cons, List.map_flatMap]
  rfl

/-- What is asked of every node by itself: a condition is plain, and a group has two children or
more. -/
def Proper : Node → Prop
  | leaf l => l.isPlain = true
  | group _ _ children => 2 ≤ children.length

/-- Whether a node and all nodes below it are proper. -/
def AllProper (node : Node) : Prop :=
  ∀ inner ∈ node.walk, inner.Proper

@[simp]
theorem allProper_leaf (l : Leaf) : (leaf l).AllProper ↔ l.isPlain = true := by
  simp [AllProper, walk, Proper]

/-- A group is proper throughout if it has two children or more, all of them proper throughout. -/
@[simp]
theorem allProper_group (id : String) (relation : Relation) (children : List Node) :
    (group id relation children).AllProper ↔
      2 ≤ children.length ∧ ∀ child ∈ children, child.AllProper := by
  simp only [AllProper, walk_group, List.forall_mem_cons, List.forall_mem_flatMap, Proper]

/-- Whether all leaves of a node are plain conditions. -/
def AllPlain (node : Node) : Prop :=
  ∀ l ∈ node.leaves, l.isPlain = true

/-- The leaves of a proper node are plain. -/
theorem AllProper.allPlain {node : Node} (h : node.AllProper) : node.AllPlain := by
  intro l hl
  rcases List.mem_filterMap.mp hl with ⟨inner, hinner, hleaf⟩
  cases inner with
  | leaf l' =>
      rcases Option.some.inj hleaf with rfl
      exact h _ hinner
  | group id relation children => contradiction

/-- In a group, the group itself is visited and what is visited in its children. -/
theorem mem_walk_group {inner : Node} {id : String} {relation : Relation} {children : List Node} :
    inner ∈ (group id relation children).walk ↔
      inner = group id relation children ∨ ∃ child ∈ children, inner ∈ child.walk := by
  rw [walk_group, List.mem_cons, List.mem_flatMap]

/-- An identifier does not occur in a group if neither the group nor anything in its children has
it. -/
theorem not_mem_ids_group {target id : String} {relation : Relation} {children : List Node} :
    target ∉ (group id relation children).ids ↔
      id ≠ target ∧ ∀ child ∈ children, target ∉ child.ids := by
  simp only [ids_group, List.mem_cons, List.mem_flatMap, not_or, not_exists, not_and, ne_comm]

/-- The walk of a node visits the node itself. -/
theorem mem_walk (node : Node) : node ∈ node.walk := by
  cases node <;> simp [walk]

/-- The identifier of a node is one of those of the node and the nodes below it. -/
theorem id_mem_ids (node : Node) : node.id ∈ node.ids :=
  List.mem_map.mpr ⟨node, node.mem_walk, rfl⟩

/-- A leaf of a node is visited in its walk. -/
theorem mem_walk_of_mem_leaves {node : Node} {l : Leaf} (h : l ∈ node.leaves) :
    leaf l ∈ node.walk := by
  rcases List.mem_filterMap.mp h with ⟨inner, hinner, hleaf⟩
  cases inner with
  | leaf l' =>
      rcases Option.some.inj hleaf with rfl
      exact hinner
  | group id relation children => contradiction

/-- The walk of a node goes through the walks of all nodes below it. -/
theorem sublist_walk {node inner : Node} (h : inner ∈ node.walk) :
    inner.walk.Sublist node.walk := by
  induction node with
  | leaf l =>
      rw [walk, List.mem_singleton] at h
      rw [h]
  | group id relation children ih =>
      rcases mem_walk_group.mp h with rfl | ⟨child, hchild, hinner⟩
      · exact .refl _
      · have hwalk : child.walk.Sublist (children.flatMap walk) := by
          simpa using (List.singleton_sublist.mpr hchild).flatMap walk
        rw [walk_group]
        exact ((ih child hchild hinner).trans hwalk).cons _

/-- The identifier of a child occurs wherever its parent does. -/
theorem id_mem_ids_of_child {node child : Node} {id : String} {relation : Relation}
    {children : List Node} (hparent : group id relation children ∈ node.walk)
    (hchild : child ∈ children) : child.id ∈ node.ids := by
  have hmem : child ∈ (group id relation children).walk :=
    mem_walk_group.mpr (.inr ⟨child, hchild, child.mem_walk⟩)
  exact List.mem_map.mpr ⟨child, (sublist_walk hparent).subset hmem, rfl⟩

/-- What lies inside a proper node is proper. -/
theorem AllProper.of_mem_walk {node inner : Node} (h : node.AllProper)
    (hinner : inner ∈ node.walk) : inner.AllProper :=
  fun deeper hdeeper => h deeper ((sublist_walk hinner).subset hdeeper)

/-! ## Taking nodes out -/

/-- The children of a group are looked through one by one. -/
theorem removeAll_eq_filterMap (target : String) (children : List Node) :
    removeAll target children = children.filterMap (remove target) := by
  induction children with
  | nil => rfl
  | cons child rest ih => cases h : child.remove target <;> simp [removeAll, h, ih]

/-- What is left of the children of a group stays in the group, unless the group itself is taken
out. -/
theorem remove_group (target id : String) (relation : Relation) (children : List Node) :
    (group id relation children).remove target =
      if id = target then none
      else some (group id relation (children.filterMap (remove target))) := by
  rw [remove, removeAll_eq_filterMap]

/-- What is collected from the nodes that are left is collected from each node as far as it is
left. -/
theorem flatMap_filterMap {γ : Type} (collect : Node → List γ) (change : Node → Option Node)
    (children : List Node) :
    (children.filterMap change).flatMap collect =
      children.flatMap fun child => (change child).elim [] collect := by
  induction children with
  | nil => rfl
  | cons child rest ih => cases hchild : change child <;> simp [hchild, ih]

/-- What is collected from several nodes only gets less when it gets less at each of them. -/
theorem sublist_flatMap_filterMap {γ : Type} {collect : Node → List γ} {change : Node → Option Node}
    {children : List Node}
    (h : ∀ child ∈ children, ((change child).elim [] collect).Sublist (collect child)) :
    ((children.filterMap change).flatMap collect).Sublist (children.flatMap collect) := by
  rw [flatMap_filterMap]
  exact .flatMap_right children h

/-- No identifier comes in when nodes are taken out. -/
theorem sublist_ids_remove (target : String) (node : Node) :
    ((node.remove target).elim [] ids).Sublist node.ids := by
  induction node with
  | leaf l =>
      rw [remove]
      split <;> simp
  | group id relation children ih =>
      rw [remove_group]
      split
      · simp
      · rw [Option.elim_some, ids_group, ids_group]
        exact (sublist_flatMap_filterMap ih).cons_cons id

/-- No leaf comes in when nodes are taken out. -/
theorem sublist_leaves_remove (target : String) (node : Node) :
    ((node.remove target).elim [] leaves).Sublist node.leaves := by
  induction node with
  | leaf l =>
      rw [remove]
      split <;> simp
  | group id relation children ih =>
      rw [remove_group]
      split
      · simp
      · rw [Option.elim_some, leaves_group, leaves_group]
        exact sublist_flatMap_filterMap ih

/-- Nothing is taken out where the identifier does not occur. -/
theorem remove_of_not_mem {target : String} {node : Node} (h : target ∉ node.ids) :
    node.remove target = some node := by
  induction node with
  | leaf l =>
      rw [ids_leaf, List.mem_singleton] at h
      rw [remove, if_neg (Ne.symm h)]
  | group id inner children ih =>
      rw [not_mem_ids_group] at h
      have hchildren : ∀ child ∈ children, child.remove target = some child :=
        fun child hchild => ih child hchild (h.2 child hchild)
      rw [remove_group, if_neg h.1, List.filterMap_congr hchildren, List.filterMap_some]

/-- A node is taken out by its own identifier. -/
theorem remove_id (node : Node) : node.remove node.id = none := by
  cases node <;> simp [remove, id]

/-- The last child of a group is taken out of it, if its identifier does not occur elsewhere. -/
theorem remove_last {id : String} {relation : Relation} {children : List Node} {last : Node}
    (h : last.id ∉ (group id relation children).ids) :
    (group id relation (children ++ [last])).remove last.id =
      some (group id relation children) := by
  rw [not_mem_ids_group] at h
  have hchildren : ∀ child ∈ children, child.remove last.id = some child :=
    fun child hchild => remove_of_not_mem (h.2 child hchild)
  rw [remove_group, if_neg h.1, List.filterMap_append,
    List.filterMap_congr hchildren, List.filterMap_some, List.filterMap_cons_none last.remove_id,
    List.filterMap_nil, List.append_nil]

/-- What is taken out of one of several nodes makes up for what goes missing there. -/
theorem subperm_flatMap_ids {change : Node → Option Node} {child : Node} {children : List Node}
    {taken : List String} (hchild : child ∈ children)
    (hchange : ∀ other ∈ children, ((change other).elim [] ids).Sublist other.ids)
    (h : (taken ++ (change child).elim [] ids).Subperm child.ids) :
    (taken ++ (children.filterMap change).flatMap ids).Subperm (children.flatMap ids) := by
  rcases List.append_of_mem hchild with ⟨before, after, rfl⟩
  have hbefore : ((before.filterMap change).flatMap ids).Sublist (before.flatMap ids) :=
    sublist_flatMap_filterMap fun other hother => hchange other (by simp [hother])
  have hafter : ((after.filterMap change).flatMap ids).Sublist (after.flatMap ids) :=
    sublist_flatMap_filterMap fun other hother => hchange other (by simp [hother])
  have hmiddle : ((child :: after).filterMap change).flatMap ids =
      (change child).elim [] ids ++ (after.filterMap change).flatMap ids := by
    cases hchanged : change child <;> simp [hchanged]
  rw [List.filterMap_append, List.flatMap_append, hmiddle, List.flatMap_append, List.flatMap_cons]
  have hfront : taken ++ ((before.filterMap change).flatMap ids ++
      ((change child).elim [] ids ++ (after.filterMap change).flatMap ids)) ~
        (before.filterMap change).flatMap ids ++
          ((taken ++ (change child).elim [] ids) ++ (after.filterMap change).flatMap ids) := by
    rw [List.append_assoc]
    exact List.perm_append_comm_assoc _ _ _
  exact hfront.subperm.trans (hbefore.subperm.append (h.append hafter.subperm))

/-- A node that is taken out shares no identifier with what stays, as long as none occurs twice. -/
theorem subperm_ids_remove {target : String} {node moving : Node} (hmoving : moving ∈ node.walk)
    (hid : moving.id = target) :
    (moving.ids ++ (node.remove target).elim [] ids).Subperm node.ids := by
  induction node with
  | leaf l =>
      rw [walk, List.mem_singleton] at hmoving
      subst hmoving
      have htarget : l.condition.id = target := hid
      simp [remove, htarget]
  | group id relation children ih =>
      rw [remove_group]
      split
      · next htarget =>
          have hsub : moving.ids.Sublist (group id relation children).ids :=
            (sublist_walk hmoving).map _
          simpa using hsub.subperm
      · next htarget =>
          rcases mem_walk_group.mp hmoving with rfl | ⟨child, hchild, hinner⟩
          · exact absurd hid htarget
          -- One child loses the node; the others lose identifiers at most.
          · have hchildren := subperm_flatMap_ids hchild
              (fun other _ => sublist_ids_remove target other) (ih child hchild hinner)
            rw [Option.elim_some, ids_group, ids_group]
            exact List.perm_middle.subperm.trans ((List.subperm_cons id).mpr hchildren)

/-! ## Normal forms -/

/-- A group that is dropped or gives way to its only child brings in no identifier. -/
theorem sublist_ids_regroup (id : String) (relation : Relation) (children : List Node) :
    ((regroup id relation children).elim [] ids).Sublist (id :: children.flatMap ids) := by
  cases children with
  | nil => simp [regroup]
  | cons first rest =>
      cases rest with
      | nil => simp [regroup]
      | cons second rest => simp

/-- What holds of all children, and of the group of them if there are two or more, holds of what
they are grouped to. -/
theorem forall_mem_regroup {p : Node → Prop} {id : String} {relation : Relation}
    {children : List Node} (hchildren : ∀ child ∈ children, p child)
    (hgroup : 2 ≤ children.length → p (group id relation children)) :
    ∀ normal ∈ regroup id relation children, p normal := by
  intro normal hnormal
  rcases regroup_eq_some_iff.mp hnormal with rfl | ⟨hlength, rfl⟩
  · exact hchildren normal (List.mem_singleton_self normal)
  · exact hgroup hlength

/-- A group of proper children is proper, unless it is dropped or gives way to its only child. -/
theorem allProper_regroup {id : String} {relation : Relation} {children : List Node}
    (h : ∀ child ∈ children, child.AllProper) :
    ∀ normal ∈ regroup id relation children, normal.AllProper :=
  forall_mem_regroup h fun hlength => (allProper_group id relation children).mpr ⟨hlength, h⟩

/-- Several nodes are normal when each of them is. -/
theorem areNormal_eq_all (children : List Node) : areNormal children = children.all isNormal := by
  induction children with
  | nil => rfl
  | cons child rest ih => rw [areNormal, ih, List.all_cons]

/-- A group is normal if it has two children or more, all of them normal. -/
theorem isNormal_group (id : String) (relation : Relation) (children : List Node) :
    (group id relation children).isNormal = true ↔
      2 ≤ children.length ∧ ∀ child ∈ children, child.isNormal = true := by
  rw [isNormal, areNormal_eq_all, Bool.and_eq_true, decide_eq_true_eq, List.all_eq_true]

/-- A node that is normal is its own normal form. -/
theorem normalize_of_isNormal {node : Node} (h : node.isNormal = true) :
    node.normalize = some node := by
  induction node with
  | leaf l => exact normalize_leaf l
  | group id relation children ih =>
      rw [isNormal_group] at h
      have hchildren : ∀ child ∈ children, child.normalize = some child :=
        fun child hchild => ih child hchild (h.2 child hchild)
      rw [normalize_group, List.filterMap_congr hchildren, List.filterMap_some,
        regroup_of_two_le h.1]

/-- A node that is proper throughout is normal. -/
theorem isNormal_of_allProper {node : Node} (h : node.AllProper) : node.isNormal = true := by
  induction node with
  | leaf l => rw [isNormal]
  | group id relation children ih =>
      rw [allProper_group] at h
      rw [isNormal_group]
      exact ⟨h.1, fun child hchild => ih child hchild (h.2 child hchild)⟩

/-- No identifier comes in when a node is normalized. -/
theorem sublist_ids_normalize (node : Node) :
    (node.normalize.elim [] ids).Sublist node.ids := by
  induction node with
  | leaf l => simp
  | group id relation children ih =>
      rw [normalize_group, ids_group]
      exact (sublist_ids_regroup id relation _).trans ((sublist_flatMap_filterMap ih).cons_cons id)

/-- The same holds where there may be no node. -/
theorem sublist_ids_bind_normalize (left : Option Node) :
    ((left.bind normalize).elim [] ids).Sublist (left.elim [] ids) := by
  cases left with
  | none => exact .refl []
  | some node => exact node.sublist_ids_normalize

/-- A normalized node with plain leaves is proper throughout. -/
theorem allProper_normalize {node normal : Node} (hplain : node.AllPlain)
    (h : node.normalize = some normal) : normal.AllProper := by
  induction node generalizing normal with
  | leaf l =>
      rw [normalize_leaf] at h
      rcases Option.some.inj h with rfl
      rw [allProper_leaf]
      exact hplain l (by simp [leaves, walk, leaf?])
  | group id relation children ih =>
      have hchildren : ∀ child ∈ children.filterMap normalize, child.AllProper := by
        intro child hchild
        rcases List.mem_filterMap.mp hchild with ⟨old, hold, hnormal⟩
        refine ih old hold (fun l hl => hplain l ?_) hnormal
        rw [leaves_group]
        exact List.mem_flatMap.mpr ⟨old, hold, hl⟩
      rw [normalize_group] at h
      exact allProper_regroup hchildren normal h

end Node

/-! ## Trees -/

namespace Tree

/-- The identifiers of the nodes of a tree. -/
def nodeIds (tree : Tree) : List String :=
  tree.walk.map Node.id

/-- In a well-formed tree the identifiers of the nodes are distinct, every group has two children or
more, and every leaf is a plain condition. -/
structure WellFormed (tree : Tree) : Prop where
  distinct : tree.nodeIds.Nodup
  proper : ∀ node ∈ tree.walk, node.Proper

@[simp]
theorem nodeIds_none (id : String) : nodeIds { id, root := none } = [] :=
  rfl

/-- The identifiers in a tree are those of its root. -/
@[simp]
theorem nodeIds_some (id : String) (root : Node) :
    nodeIds { id, root := some root } = root.ids :=
  rfl

/-- The identifiers in a tree are those of its root, if it has one. -/
theorem nodeIds_eq_elim (tree : Tree) : tree.nodeIds = tree.root.elim [] Node.ids := by
  rcases tree with ⟨treeId, _ | root⟩ <;> rfl

/-- An empty tree is well-formed. -/
theorem wellFormed_none (id : String) : WellFormed { id, root := none } :=
  ⟨.nil, fun _ h => absurd h List.not_mem_nil⟩

/-- A tree is well-formed if no identifier occurs twice below its root, and the root is proper
throughout. -/
theorem wellFormed_some {id : String} {root : Node} :
    WellFormed { id, root := some root } ↔ root.ids.Nodup ∧ root.AllProper :=
  ⟨fun h => ⟨h.distinct, h.proper⟩, fun h => ⟨h.1, h.2⟩⟩

/-- A tree is brought into normal form by normalizing its root. -/
theorem getD_normalized? (tree : Tree) :
    tree.normalized?.getD tree = { tree with root := tree.root.bind Node.normalize } := by
  rcases tree with ⟨treeId, _ | root⟩
  · rfl
  · cases h : root.isNormal with
    | true => simp [normalized?, h, Node.normalize_of_isNormal h]
    | false => simp [normalized?, h]

/-- What is found in a well-formed tree is proper throughout. -/
theorem WellFormed.allProper_of_find? {tree : Tree} {id : String} {node : Node}
    (h : tree.WellFormed) (hfind : tree.find? id = some node) : node.AllProper := by
  have hmem := List.mem_of_find?_eq_some hfind
  rcases tree with ⟨treeId, root⟩
  cases root with
  | none => contradiction
  | some root => exact (wellFormed_some.mp h).2.of_mem_walk hmem

/-- A node has an identifier exactly when it is one of those in the tree. -/
theorem hasId_iff {tree : Tree} {id : String} : tree.hasId id = true ↔ id ∈ tree.nodeIds := by
  rw [hasId, find?, List.find?_isSome, nodeIds, List.mem_map]
  simp

end Tree

end FilterQuery
