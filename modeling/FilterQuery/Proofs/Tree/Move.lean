import FilterQuery.Proofs.Tree.Detach
import FilterQuery.Proofs.Tree.Perform

/-!
# Moving nodes

To move a node means to take it out of its tree, to bring the rest into normal form, and to combine
the node with its target there.  Groups may go or give way to their only child in between, but no
leaf does: the leaves of the node leave their place and come in again behind those of the target.

Main results:

- `Node.attach_self_eq_group`: attaching to a node puts its leaves and the new node into one group.
- `Node.Place.moves_fill`: when a group with a new last child is what comes of a move.
- `Node.moves_attach`: what is attached to the target, where that is left, has been moved to it.
- `Tree.move_of_canMove`, `Tree.move_of_not_canMove`: when a move goes through.
- `Tree.moves_of_relocates`: a move that goes through moves the node to its target.
- `Tree.move_keeps_leaves`: a move loses nothing and duplicates nothing.
-/

open scoped List

namespace FilterQuery

namespace Node

/-- Whether a tree is what comes of moving a node of it to the node in a place: no identifier occurs
twice, the node is there once, as it was, its parent is a group of the relation, and its leaves come
directly after those of the node in the place, while the other leaves stay as they were. -/
structure Place.Moves (place : Place) (inner moving : Node) (relation : Relation) (new : Node) :
    Prop where
  distinct : new.ids.Nodup
  once : new.walk.filter (fun node => node.id == moving.id) = [moving]
  has_parent : ∃ id children, group id relation children ∈ new.walk ∧ moving ∈ children
  old_leaves : (place.fill inner).leaves =
    place.ahead.filterMap leaf? ++ inner.leaves ++ place.behind.filterMap leaf?
  new_leaves : new.leaves =
    (place.ahead.filterMap leaf?).filter (Leaf.isOutside moving) ++
      (inner.leaves.filter (Leaf.isOutside moving) ++ moving.leaves) ++
      (place.behind.filterMap leaf?).filter (Leaf.isOutside moving)
  perm_leaves : new.leaves ~ (place.fill inner).leaves

/-- In a tree without repeated identifiers, a node is the only one of its identifier. -/
theorem filter_walk_eq_singleton {node inner : Node} (hdistinct : node.ids.Nodup)
    (h : inner ∈ node.walk) : node.walk.filter (fun other => other.id == inner.id) = [inner] := by
  rcases List.append_of_mem h with ⟨before, after, hwalk⟩
  rw [ids, hwalk, List.map_append, List.map_cons] at hdistinct
  have hnone : ∀ visited : List Node, inner.id ∉ visited.map id →
      visited.filter (fun other => other.id == inner.id) = [] := by
    intro visited hvisited
    rw [List.filter_eq_nil_iff]
    intro other hother heq
    exact hvisited (List.mem_map.mpr ⟨other, hother, beq_iff_eq.mp heq⟩)
  have hbefore : inner.id ∉ before.map id :=
    fun hmem => List.disjoint_of_nodup_append hdistinct hmem List.mem_cons_self
  have hafter : inner.id ∉ after.map id := (List.nodup_cons.mp hdistinct.of_append_right).1
  rw [hwalk, List.filter_append, hnone before hbefore, List.nil_append, List.filter_cons,
    beq_self_eq_true, if_pos rfl, hnone after hafter]

/-! ## Attaching to the target -/

section Attached

variable {place left : Place} {inner kept moving : Node} {id : String} {relation : Relation}

/-- Attaching to a node puts what makes up the node and the new node into one group. -/
theorem attach_self_eq_group (node added : Node) (relation : Relation) (ids : IdSupply) :
    ∃ id siblings rest, attach node.id relation added ids node =
        (group id relation (siblings ++ [added]), rest) ∧
      siblings.flatMap leaves = node.leaves := by
  rcases attach_self relation added (rfl : node.id = node.id) ids with
    ⟨children, hgroup, hattach⟩ | hattach
  · refine ⟨_, children, _, hattach, ?_⟩
    rw [hgroup, leaves_group]
  · exact ⟨_, [node], _, hattach, List.flatMap_singleton _ _⟩

/-- A group with a new last child in a place of what is left is what comes of a move, if no
identifier occurs twice and the other leaves are those that were there. -/
theorem Place.moves_fill (siblings : List Node) (hdistinct : (place.fill inner).ids.Nodup)
    (hmoving : moving ∈ (place.fill inner).walk)
    (hnew : (left.fill (group id relation (siblings ++ [moving]))).ids.Nodup)
    (hsiblings : siblings.flatMap leaves = inner.leaves.filter (Leaf.isOutside moving))
    (hahead : left.ahead.filterMap leaf? =
      (place.ahead.filterMap leaf?).filter (Leaf.isOutside moving))
    (hbehind : left.behind.filterMap leaf? =
      (place.behind.filterMap leaf?).filter (Leaf.isOutside moving)) :
    place.Moves inner moving relation
      (left.fill (group id relation (siblings ++ [moving]))) := by
  have hgroup := left.mem_walk_fill (group id relation (siblings ++ [moving]))
  have hchild : moving ∈ siblings ++ [moving] := List.mem_append_right _ (List.mem_singleton_self _)
  have hthere : moving ∈ (left.fill (group id relation (siblings ++ [moving]))).walk :=
    (sublist_walk hgroup).subset (mem_walk_group.mpr (.inr ⟨moving, hchild, moving.mem_walk⟩))
  have hleaves : (left.fill (group id relation (siblings ++ [moving]))).leaves =
      (place.ahead.filterMap leaf?).filter (Leaf.isOutside moving) ++
        (inner.leaves.filter (Leaf.isOutside moving) ++ moving.leaves) ++
        (place.behind.filterMap leaf?).filter (Leaf.isOutside moving) := by
    rw [left.leaves_fill, leaves_group, List.flatMap_append, hsiblings, List.flatMap_singleton,
      hahead, hbehind]
  constructor
  · exact hnew
  · exact filter_walk_eq_singleton hnew hthere
  · exact ⟨id, _, hgroup, hchild⟩
  · exact place.leaves_fill inner
  · exact hleaves
  · -- Only the leaves of the node and the others behind the place have to change sides.
    refine List.Perm.trans ?_ (perm_leaves_outside hdistinct hmoving)
    rw [hleaves, place.leaves_fill, List.filter_append, List.filter_append, List.append_assoc,
      List.append_assoc, List.append_assoc, List.append_assoc]
    exact (List.perm_append_comm.append_left _).append_left _

/-- A node that is attached to its target, where that is left when the node is taken out, has been
moved to it, as long as no identifier occurs twice. -/
theorem moves_attach {root detached : Node} {target : String} {ids : IdSupply}
    (hdistinct : root.ids.Nodup) (hmoving : moving ∈ root.walk) (houtside : target ∉ moving.ids)
    (hdetached : root.detach moving.id = some detached) (htarget : target ∈ detached.ids)
    (hnew : (attach target relation moving ids detached).1.ids.Nodup) :
    ∃ (place : Place) (inner : Node), root = place.fill inner ∧ inner.id = target ∧
      place.Moves inner moving relation (attach target relation moving ids detached).1 := by
  have hsub := root.sublist_ids_detach moving.id
  rw [hdetached, Option.elim_some] at hsub
  rcases List.mem_map.mp (hsub.subset htarget) with ⟨inner, hinner, rfl⟩
  rcases exists_fill_of_mem_walk hinner with ⟨place, rfl⟩
  have hleft : inner.id ∈ ((place.fill inner).detach moving.id).elim [] Node.ids := by
    rwa [hdetached]
  rw [mem_ids_detach_fill_iff hdistinct (.inl hmoving) houtside] at hleft
  obtain ⟨kept, hkept, hid⟩ := exists_detach_of_mem (place.nodup_ids_of_fill hdistinct) hleft
  obtain ⟨left, hfill, hleaves, hahead, hbehind⟩ :=
    exists_detach_fill hdistinct (.inl hmoving) houtside hkept
  rcases Option.some.inj (hdetached.symm.trans hfill) with rfl
  obtain ⟨id, siblings, rest, hattach, hsiblings⟩ :=
    attach_self_eq_group kept moving relation ids
  have hgrown : (attach inner.id relation moving ids (left.fill kept)).1 =
      left.fill (group id relation (siblings ++ [moving])) := by
    rw [← hid, Place.attach_fill (hdistinct.sublist hsub) kept.id_mem_ids, hattach]
  rw [hgrown] at hnew ⊢
  exact ⟨place, inner, rfl, rfl,
    Place.moves_fill siblings hdistinct hmoving hnew (hsiblings.trans hleaves) hahead hbehind⟩

end Attached

end Node

namespace Tree

/-! ## Moves that go through -/

variable {tree : Tree} {node target : String} {relation : Input} {given : Option Relation}

/-- Whether a node can be moved to a target: both are there, the target lies outside of the node,
and it is still there when the node is taken out. -/
def CanMove (tree : Tree) (node target : String) : Prop :=
  ∃ moving removed, tree.find? node = some moving ∧ target ∈ tree.nodeIds ∧ target ∉ moving.ids ∧
    tree.remove node = some removed ∧ target ∈ removed.nodeIds

/-- Whether a tree is what comes of a move that goes through: the node is taken out, which leaves
the target, and is attached to the target in what is left. -/
def Relocates (tree : Tree) (node target : String) (relation : Relation) (ids : IdSupply)
    (new : Tree) (left : IdSupply) : Prop :=
  ∃ moving removed root grown, tree.find? node = some moving ∧ target ∉ moving.ids ∧
    tree.remove node = some removed ∧ removed.root = some root ∧ target ∈ root.ids ∧
    Node.attach target relation moving ids root = (grown, left) ∧
    new = { removed with root := some grown }

/-- A move by a valid relation gives a result. -/
theorem exists_move (hrelation : Relation.resolve relation = .ok given) (tree : Tree)
    (node target : String) (ids : IdSupply) :
    ∃ result left, tree.move node target relation ids = .ok (result, left) := by
  unfold move
  rw [hrelation]
  split
  · exact ⟨_, _, rfl⟩
  · split
    · exact ⟨_, _, rfl⟩
    · dsimp only
      split
      · split
        · exact ⟨_, _, rfl⟩
        · exact ⟨_, _, rfl⟩
      · exact ⟨_, _, rfl⟩

/-- Where a node cannot be moved, the tree stays as it is. -/
theorem move_of_not_canMove (hrelation : Relation.resolve relation = .ok given)
    (h : ¬ tree.CanMove node target) (ids : IdSupply) :
    tree.move node target relation ids = .ok (none, ids) := by
  obtain ⟨result, left, hmove⟩ := exists_move hrelation tree node target ids
  rcases move_cases hmove with ⟨rfl, rfl⟩ | ⟨moving, removed, _, _, _, hfound, _, htarget,
    houtside, hremove, _, hstays, _⟩
  · exact hmove
  · have hcan : tree.CanMove node target :=
      ⟨moving, removed, hfound, hasId_iff.mp htarget, houtside, hremove, hasId_iff.mp hstays⟩
    exact absurd hcan h

/-- Where a node can be moved, the move goes through. -/
theorem move_of_canMove (hrelation : Relation.resolve relation = .ok given)
    (h : tree.CanMove node target) (ids : IdSupply) :
    ∃ new left, tree.move node target relation ids = .ok (some new, left) ∧
      tree.Relocates node target (given.getD .and) ids new left := by
  obtain ⟨moving, removed, hfound, htarget, houtside, hremove, hstays⟩ := h
  obtain rfl := find?_id hfound
  rcases removed with ⟨removedId, _ | root⟩
  · exact absurd hstays List.not_mem_nil
  · refine ⟨_, _, ?_, moving, _, root, _, hfound, houtside, hremove, rfl, hstays, rfl, rfl⟩
    exact move_eq hfound (hasId_iff.mpr htarget) houtside hremove rfl (hasId_iff.mpr hstays)
      hrelation

/-- In a tree without repeated identifiers, a move that goes through moves the node to its target,
as long as the identifiers that are drawn are new. -/
theorem moves_of_relocates {relation : Relation} {ids left : IdSupply} {new : Tree}
    (hdistinct : tree.nodeIds.Nodup) (h : tree.Relocates node target relation ids new left)
    (hnew : AreNew tree.nodeIds (ids.drawn left)) :
    ∃ (place : Node.Place) (inner moving root : Node), tree.root = some (place.fill inner) ∧
      tree.find? target = some inner ∧ tree.find? node = some moving ∧
      new = { tree with root := some root } ∧ place.Moves inner moving relation root := by
  obtain ⟨moving, removed, detached, grown, hfound, houtside, hremove, hdetached, htarget, hattach,
    rfl⟩ := h
  have hapart := nodup_nodeIds_remove hdistinct hfound hremove
  have hknown := (subperm_nodeIds_remove hfound hremove).subset
  have hmoving := List.mem_of_find?_eq_some hfound
  obtain rfl := find?_id hfound
  rcases tree with ⟨treeId, _⟩
  obtain ⟨root, rfl, rfl⟩ := remove_cases hremove
  have hdetach : root.detach moving.id = some detached := hdetached
  rw [nodeIds_eq_elim, hdetached] at hapart hknown
  have hgrown := nodup_ids_attach htarget hattach hapart hknown hnew
  obtain ⟨rfl, rfl⟩ := Prod.mk.inj hattach
  obtain ⟨place, inner, rfl, rfl, hmoves⟩ :=
    Node.moves_attach hdistinct hmoving houtside hdetach htarget hgrown
  have hinner := find?_of_mem hdistinct (place.mem_walk_fill inner)
  exact ⟨place, inner, moving, _, rfl, hinner, hfound, rfl, hmoves⟩

/-- A move by a valid relation leaves a tree without repeated identifiers as it is, if the node
cannot be moved, and otherwise moves the node to its target, as long as the identifiers that are
drawn are new. -/
theorem move_keeps_leaves (hdistinct : tree.nodeIds.Nodup) (node target : String)
    (hrelation : Relation.resolve relation = .ok given) (ids : IdSupply) :
    ∃ result left, tree.move node target relation ids = .ok (result, left) ∧
      (result.isSome = true ↔ tree.CanMove node target) ∧
      (AreNew tree.nodeIds (ids.drawn left) → ∀ new ∈ result,
        ∃ (place : Node.Place) (inner moving root : Node),
          tree.root = some (place.fill inner) ∧ tree.find? target = some inner ∧
            tree.find? node = some moving ∧ new = { tree with root := some root } ∧
            place.Moves inner moving (given.getD .and) root) := by
  by_cases hcan : tree.CanMove node target
  · obtain ⟨new, left, hmove, hrelocates⟩ := move_of_canMove hrelation hcan ids
    refine ⟨some new, left, hmove, iff_of_true rfl hcan, ?_⟩
    intro hnew other hother
    obtain rfl := Option.mem_some_iff.mp hother
    exact moves_of_relocates hdistinct hrelocates hnew
  · refine ⟨none, ids, move_of_not_canMove hrelation hcan ids, ?_, ?_⟩
    · exact iff_of_false Bool.false_ne_true hcan
    · intro _ other hother
      exact absurd hother (Option.not_mem_none other)

/-- A group with an only child is moved to the group in which it stands, by the other relation.  The
node around both is left with an empty group fewer. -/
theorem move_keeps_leaves_of_groups :
    let host : Node := .leaf (.plain { id := "a", field := "host", operator := some .present })
    let user : Node := .leaf (.plain { id := "b", field := "user", operator := some .absent })
    let size : Node := .leaf (.plain { id := "c", field := "size" })
    let verb : Node := .leaf (.plain { id := "d", field := "verb" })
    let moving : Node := .group "i" .or [user]
    let inner : Node := .group "h" .or [size, moving, verb]
    let tree : Tree := { id := "t", root := some (.group "g" .and [.group "e" .or [], inner, host]) }
    let ids : IdSupply := ⟨"n", 0⟩
    let root : Node := .group "g" .and
      [.group ids.mint.1 .and [.group "h" .or [size, verb], moving], host]
    tree.move "i" "h" (.text "and") ids = .ok (some { tree with root := some root }, ids.mint.2) ∧
      ∃ place : Node.Place, tree.root = some (place.fill inner) ∧
        place.Moves inner moving .and root := by
  intro host user size verb moving inner tree ids root
  have hdistinct : tree.nodeIds.Nodup := by decide +kernel
  have hrelation : Relation.resolve (.text "and") = .ok (some .and) := rfl
  have hmove : tree.move "i" "h" (.text "and") ids =
      .ok (some { tree with root := some root }, ids.mint.2) := rfl
  have hnew : AreNew tree.nodeIds (ids.drawn ids.mint.2) := by decide +kernel
  obtain ⟨result, left, hresult, _, hmoves⟩ := move_keeps_leaves hdistinct "i" "h" hrelation ids
  obtain ⟨rfl, rfl⟩ := Prod.mk.inj (Except.ok.inj (hmove.symm.trans hresult))
  obtain ⟨place, found, taken, grown, hroot, hinner, htaken, hgrown, hplace⟩ := hmoves hnew _ rfl
  obtain rfl : inner = found := Option.some.inj hinner
  obtain rfl : moving = taken := Option.some.inj htaken
  obtain rfl : root = grown := Option.some.inj (Tree.mk.inj hgrown).2
  exact ⟨hmove, place, hroot, hplace⟩

end Tree

end FilterQuery
