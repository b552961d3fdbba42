import FilterQuery.Proofs.Tree.Perform
import FilterQuery.Proofs.Tree.Restriction

/-!
# Removing leaves one after the other

Every removal brings the whole tree into normal form, so which groups go, and when, depends on the
order in which leaves are removed.  What is left at the end does not: it is the normal form of the
tree without these leaves.  A tree from which nothing is removed stays as it is, also where it is
not in normal form.

Main results:

- `Node.without_bind_normalize`: the normal form of a node without some leaves is a restriction.
- `Tree.remove_leaf`: what is left when one leaf is removed.
- `Tree.removeEach_cons`: what is left when one leaf, and others after it, are removed.
- `Tree.removeEach_confluent`: leaves may be removed in any order, and removing all those that
  cannot be used amounts to pruning.
- `Tree.removeEach_nil_ne`: where nothing is removed, a group of one child stays.
-/

open scoped List

namespace FilterQuery

namespace Node

/-! ## Nodes without some leaves -/

mutual

/-- A node without the leaves of some identifiers.  All groups stay, also where nothing is left in
them. -/
def without (gone : List String) : Node → Option Node
  | leaf l => if l.condition.id ∈ gone then none else some (leaf l)
  | group id relation children => some (group id relation (withoutAll gone children))

/-- Several nodes without the leaves of some identifiers. -/
def withoutAll (gone : List String) : List Node → List Node
  | [] => []
  | child :: rest => (child.without gone).toList ++ withoutAll gone rest

end

/-- The leaves are taken out of the children of a group one by one. -/
theorem withoutAll_eq_filterMap (gone : List String) (children : List Node) :
    withoutAll gone children = children.filterMap (without gone) := by
  induction children with
  | nil => rfl
  | cons child rest ih => cases h : child.without gone <;> simp [withoutAll, h, ih]

/-- The normal form of a node without some leaves is its restriction to the other ones. -/
theorem without_bind_normalize (gone : List String) (node : Node) :
    (node.without gone).bind normalize = node.restrict fun l => l.condition.id ∉ gone := by
  induction node with
  | leaf l => by_cases h : l.condition.id ∈ gone <;> simp [without, restrict, h]
  | group id relation children ih =>
      rw [without, withoutAll_eq_filterMap, Option.bind_some, normalize_group,
        List.filterMap_filterMap, List.filterMap_congr ih, restrict_group]

/-- What has an identifier that no group has is taken out as a leaf. -/
theorem remove_eq_without {node : Node} {target : String}
    (h : ∀ id relation children, group id relation children ∈ node.walk → id ≠ target) :
    node.remove target = node.without [target] := by
  induction node with
  | leaf l => simp [remove, without]
  | group id relation children ih =>
      have hchildren : ∀ child ∈ children, child.remove target = child.without [target] := by
        intro child hchild
        apply ih child hchild
        intro inner other siblings hinner
        exact h inner other siblings (mem_walk_group.mpr (.inr ⟨child, hchild, hinner⟩))
      rw [remove_group, if_neg (h id relation children (mem_walk _)),
        List.filterMap_congr hchildren, without, withoutAll_eq_filterMap]

/-- A leaf that is taken out of a node without repeated identifiers leaves the restriction to all
other leaves. -/
theorem remove_leaf_bind_normalize {node : Node} {l : Leaf} (hdistinct : node.ids.Nodup)
    (hl : l ∈ node.leaves) :
    (node.remove l.condition.id).bind normalize =
      node.restrict fun other => other.condition.id ∉ [l.condition.id] := by
  have hgroups : ∀ id relation children, group id relation children ∈ node.walk →
      id ≠ l.condition.id := by
    intro id relation children hgroup hid
    have hsame := List.inj_on_of_nodup_map hdistinct hgroup (mem_walk_of_mem_leaves hl) hid
    contradiction
  rw [remove_eq_without hgroups, without_bind_normalize]

end Node

namespace Tree

/-! ## Restricted trees -/

/-- The leaves of a tree in the order of its walk. -/
def leaves (tree : Tree) : List Leaf :=
  tree.root.elim [] Node.leaves

/-- The identifiers of the leaves of a tree. -/
def leafIds (tree : Tree) : List String :=
  tree.leaves.map fun l => l.condition.id

/-- What is left of a tree in normal form when only some of its leaves are kept. -/
def restrict (keep : Leaf → Bool) (tree : Tree) : Tree :=
  { tree with root := tree.root.bind (Node.restrict keep) }

variable {tree : Tree} {keep other : Leaf → Bool}

/-- One restriction after the other keeps the leaves that both of them keep. -/
theorem restrict_restrict (tree : Tree) :
    (tree.restrict keep).restrict other = tree.restrict fun l => keep l && other l := by
  simp only [restrict, Option.bind_assoc, Node.restrict_restrict]

/-- What is left of a tree has the leaves that are kept. -/
theorem leaves_restrict (tree : Tree) : (tree.restrict keep).leaves = tree.leaves.filter keep := by
  rcases tree with ⟨treeId, _ | root⟩
  · rfl
  · exact root.leaves_restrict

/-- A tree without repeated identifiers has none when it is restricted. -/
theorem nodup_nodeIds_restrict (h : tree.nodeIds.Nodup) : (tree.restrict keep).nodeIds.Nodup := by
  rcases tree with ⟨treeId, _ | root⟩
  · exact List.nodup_nil
  · have hids := root.sublist_ids_restrict keep
    rw [restrict, Option.bind_some]
    cases hleft : root.restrict keep with
    | none => exact List.nodup_nil
    | some left =>
        rw [hleft, Option.elim_some] at hids
        exact h.sublist hids

/-! ## Removing leaves -/

/-- A tree from which the nodes of some identifiers were removed one after the other. -/
def removeEach (tree : Tree) (gone : List String) : Tree :=
  gone.foldl (fun tree id => (tree.remove id).getD tree) tree

/-- A leaf that is removed leaves the normal form of the tree without it. -/
theorem remove_leaf {id : String} (hdistinct : tree.nodeIds.Nodup) (hid : id ∈ tree.leafIds) :
    tree.remove id = some (tree.restrict fun l => l.condition.id ∉ [id]) := by
  rcases List.mem_map.mp hid with ⟨l, hl, rfl⟩
  rcases tree with ⟨treeId, _ | root⟩
  · exact absurd hl List.not_mem_nil
  · have hmem : l.condition.id ∈ root.ids :=
      List.mem_map.mpr ⟨_, Node.mem_walk_of_mem_leaves hl, rfl⟩
    rw [remove_eq rfl (hasId_iff.mpr hmem), Node.remove_leaf_bind_normalize hdistinct hl]
    rfl

/-- Leaves that are removed one after the other leave the normal form of the tree without them, if
there is at least one of them. -/
theorem removeEach_cons {id : String} {gone : List String} (hdistinct : tree.nodeIds.Nodup)
    (hleaves : ∀ other ∈ id :: gone, other ∈ tree.leafIds) (hgone : (id :: gone).Nodup) :
    tree.removeEach (id :: gone) = tree.restrict fun l => l.condition.id ∉ id :: gone := by
  induction gone generalizing id tree with
  | nil =>
      rw [removeEach, List.foldl_cons, remove_leaf hdistinct (hleaves id List.mem_cons_self)]
      rfl
  | cons next rest ih =>
      rw [List.nodup_cons] at hgone
      have hleft : ∀ other ∈ next :: rest,
          other ∈ (tree.restrict fun l => l.condition.id ∉ [id]).leafIds := by
        intro other hother
        rcases List.mem_map.mp (hleaves other (List.mem_cons_of_mem _ hother)) with ⟨l, hl, rfl⟩
        have hne : l.condition.id ≠ id := fun heq => hgone.1 (heq ▸ hother)
        rw [leafIds, leaves_restrict]
        exact List.mem_map.mpr ⟨l, List.mem_filter.mpr ⟨hl, by simpa using hne⟩, rfl⟩
      calc tree.removeEach (id :: next :: rest)
          = (tree.restrict fun l => l.condition.id ∉ [id]).removeEach (next :: rest) := by
            rw [removeEach, List.foldl_cons, remove_leaf hdistinct (hleaves id List.mem_cons_self)]
            rfl
        _ = (tree.restrict fun l => l.condition.id ∉ [id]).restrict
              fun l => l.condition.id ∉ next :: rest :=
            ih (nodup_nodeIds_restrict hdistinct) hleft hgone.2
        _ = tree.restrict fun l => l.condition.id ∉ id :: next :: rest := by
            rw [restrict_restrict]
            simp [List.mem_cons]

section Removed

variable {gone : List String} (hdistinct : tree.nodeIds.Nodup)
  (hleaves : ∀ id ∈ gone, id ∈ tree.leafIds) (hgone : gone.Nodup)
include hdistinct hleaves hgone

/-- What is left when leaves are removed, at least one of them. -/
theorem removeEach_eq_restrict (hne : gone ≠ []) :
    tree.removeEach gone = tree.restrict fun l => l.condition.id ∉ gone := by
  cases gone with
  | nil => exact absurd rfl hne
  | cons id rest => exact removeEach_cons hdistinct hleaves hgone

/-- The order in which leaves are removed makes no difference. -/
theorem removeEach_perm {order : List String} (horder : order ~ gone) :
    tree.removeEach order = tree.removeEach gone := by
  by_cases hnil : gone = []
  · subst hnil
    rw [List.perm_nil.mp horder]
  · have hne : order ≠ [] := by
      rintro rfl
      exact hnil (List.nil_perm.mp horder)
    have horderLeaves : ∀ id ∈ order, id ∈ tree.leafIds :=
      fun id hid => hleaves id (horder.mem_iff.mp hid)
    rw [removeEach_eq_restrict hdistinct hleaves hgone hnil,
      removeEach_eq_restrict hdistinct horderLeaves (horder.nodup_iff.mpr hgone) hne]
    simp only [horder.mem_iff]

/-- The normal form of what is left when leaves are removed, also when there are none. -/
theorem removeEach_bind_normalize :
    (tree.removeEach gone).root.bind Node.normalize =
      tree.root.bind (Node.restrict fun l => l.condition.id ∉ gone) := by
  by_cases hnil : gone = []
  · subst hnil
    have hnormalize : Node.normalize = Node.restrict fun l => l.condition.id ∉ [] := by
      funext node
      simp [Node.normalize_eq_restrict]
    rw [hnormalize]
    rfl
  · rw [removeEach_eq_restrict hdistinct hleaves hgone hnil, restrict, Option.bind_assoc]
    simp only [Node.restrict_bind_normalize]

end Removed

/-- The normal form of a tree without some leaves is its restriction to the other ones. -/
theorem restrict_eq_without (tree : Tree) (gone : List String) :
    (tree.restrict fun l => l.condition.id ∉ gone) =
      { tree with root := (tree.root.bind (Node.without gone)).bind Node.normalize } := by
  simp only [restrict, Option.bind_assoc, Node.without_bind_normalize]

/-- Nothing is left of a tree of which no leaf is kept. -/
theorem root_restrict_eq_none (h : ∀ l ∈ tree.leaves, keep l = false) :
    (tree.restrict keep).root = none := by
  rcases tree with ⟨treeId, _ | root⟩
  · rfl
  · exact root.restrict_eq_none_iff.mpr h

/-- Only the leaves of a tree make a difference to its restriction. -/
theorem restrict_congr (h : ∀ l ∈ tree.leaves, keep l = other l) :
    tree.root.bind (Node.restrict keep) = tree.root.bind (Node.restrict other) := by
  rcases tree with ⟨treeId, _ | root⟩
  · rfl
  · exact Node.restrict_congr h

/-- Leaves that are removed from a tree without repeated identifiers may be removed in any order.
If there is at least one of them, the normal form of the tree without them is left, which is empty
if they are all its leaves; otherwise the tree stays as it is.  If they are those that cannot be
used, the normal form of what is left is the pruned tree. -/
theorem removeEach_confluent {gone : List String} (hdistinct : tree.nodeIds.Nodup)
    (hleaves : ∀ id ∈ gone, id ∈ tree.leafIds) (hgone : gone.Nodup) :
    (∀ order, order ~ gone → tree.removeEach order = tree.removeEach gone) ∧
      (gone = [] → tree.removeEach gone = tree) ∧
      (gone ≠ [] → tree.removeEach gone =
          { tree with root := (tree.root.bind (Node.without gone)).bind Node.normalize } ∧
        ((∀ id ∈ tree.leafIds, id ∈ gone) → (tree.removeEach gone).root = none)) ∧
      ((∀ l ∈ tree.leaves, l.condition.id ∈ gone ↔ l.condition.isUsable = false) →
        (tree.removeEach gone).root.bind Node.normalize = tree.root.bind Node.prune) := by
  refine ⟨?_, ?_, ?_, ?_⟩
  · intro order horder
    exact removeEach_perm hdistinct hleaves hgone horder
  · rintro rfl
    rfl
  · intro hne
    rw [removeEach_eq_restrict hdistinct hleaves hgone hne]
    refine ⟨restrict_eq_without tree gone, fun hall => root_restrict_eq_none ?_⟩
    intro l hl
    have hid : l.condition.id ∈ gone := hall _ (List.mem_map.mpr ⟨l, hl, rfl⟩)
    simpa using hid
  · intro husable
    have hprune : Node.prune = Node.restrict fun l => l.condition.isUsable :=
      funext Node.prune_eq_restrict
    rw [removeEach_bind_normalize hdistinct hleaves hgone, hprune]
    apply restrict_congr
    intro l hl
    have hiff := husable l hl
    cases h : l.condition.isUsable <;> simpa [h] using hiff

/-- Two conditions that were only begun are removed from a tree, in either order.  One of them is
the only child of a group that goes with it; the other one has a sibling that takes the place of
their group. -/
theorem removeEach_of_begun :
    let host : Node := .leaf (.plain { id := "a", field := "host", operator := some .present })
    let user : Node := .leaf (.plain { id := "b", field := "user", operator := some .absent })
    let size : Node := .leaf (.plain { id := "c", field := "size" })
    let verb : Node := .leaf (.plain { id := "d", field := "verb" })
    let tree : Tree := { id := "t", root := some (.group "g" .and
      [host, .group "h" .or [size], .group "i" .or [user, verb]]) }
    let left : Option Node := some (.group "g" .and [host, user])
    tree.nodeIds.Nodup ∧ (∀ id ∈ ["c", "d"], id ∈ tree.leafIds) ∧
      tree.removeEach ["c", "d"] = { tree with root := left } ∧
      tree.removeEach ["d", "c"] = { tree with root := left } ∧
      tree.root.bind Node.prune = left := by
  intro host user size verb tree left
  have hdistinct : tree.nodeIds.Nodup := by decide +kernel
  have hleaves : ∀ id ∈ ["c", "d"], id ∈ tree.leafIds := by decide +kernel
  have husable : ∀ l ∈ tree.leaves,
      l.condition.id ∈ ["c", "d"] ↔ l.condition.isUsable = false := by
    decide +kernel
  obtain ⟨horder, _, hleft, hprune⟩ := removeEach_confluent hdistinct hleaves (by decide)
  have hboth : tree.removeEach ["c", "d"] = { tree with root := left } :=
    (hleft (by decide)).1
  refine ⟨hdistinct, hleaves, hboth, ?_, ?_⟩
  · rw [horder ["d", "c"] (List.Perm.swap _ _ _), hboth]
  · rw [← hprune husable, hboth]
    rfl

/-- A tree of one group with an only child is not in normal form.  If none of its leaves is
removed, this is not the normal form of the tree without these leaves. -/
theorem removeEach_nil_ne :
    let tree : Tree := { id := "t", root := some (.group "g" .and [.leaf (.plain { id := "a" })]) }
    tree.nodeIds.Nodup ∧ (∀ id ∈ ([] : List String), id ∈ tree.leafIds) ∧ ([] : List String).Nodup ∧
      tree.removeEach [] ≠
        { tree with root := (tree.root.bind (Node.without [])).bind Node.normalize } := by
  intro tree
  refine ⟨by decide +kernel, by simp, List.nodup_nil, ?_⟩
  intro h
  have hroot := congrArg (fun tree : Tree => tree.root.map Node.id) h
  exact absurd hroot (by decide +kernel)

end Tree

end FilterQuery
