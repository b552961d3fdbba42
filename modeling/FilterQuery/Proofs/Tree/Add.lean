import FilterQuery.Proofs.Formula.Attach
import FilterQuery.Proofs.SameViews
import FilterQuery.Proofs.Tree.Perform

/-!
# Adding conditions

To add a condition to a node means to combine the two by a relation.  Either the tree grows by a new
group of both, or the node is a group of the relation already and the condition becomes its last
child.  The views of the tree are the same in both cases, and so is the place of the condition among
the leaves.

Main results:

- `Node.Place.mem_walk_of_child`: a leaf that does not occur around a place is a child only of what
  is in it.
- `Node.Place.combines_fill`: when a group with a new last child combines a node with it.
- `Tree.add_combines`: a condition that is added to a node is combined with it.
-/

namespace FilterQuery

namespace Node

/-- Whether a tree is what comes of combining the node in a place with a condition: it has the views
of the tree with a group of both in the place, the condition comes directly after the leaves of the
node, its parent is a group of the relation, and every node that was there is there as it was. -/
structure Place.Combines (place : Place) (inner : Node) (relation : Relation) (c : Condition)
    (new : Node) : Prop where
  views : ∀ id, Filter.SameViews (.tree (some new))
    (.tree (some (place.fill (group id relation [inner, leaf (.plain c)]))))
  old_leaves : (place.fill inner).leaves =
    place.ahead.filterMap leaf? ++ inner.leaves ++ place.behind.filterMap leaf?
  new_leaves : new.leaves =
    place.ahead.filterMap leaf? ++ (inner.leaves ++ [.plain c]) ++ place.behind.filterMap leaf?
  has_parent : ∃ id children, group id relation children ∈ new.walk ∧ leaf (.plain c) ∈ children
  relation_of_parent : ∀ id other children, group id other children ∈ new.walk →
    leaf (.plain c) ∈ children → other = relation
  kept : (place.fill inner).outline.Sublist new.outline

/-! ## The parent of a condition -/

variable {id : String} {relation : Relation} {children : List Node}

/-- A group in a place is no leaf of the tree. -/
theorem Place.fill_group_ne_leaf (place : Place) (l : Leaf) :
    leaf l ≠ place.fill (group id relation children) := by
  cases place <;> exact Node.noConfusion

/-- A leaf whose identifier does not occur around a place is a child only of what is in it. -/
theorem Place.mem_walk_of_child {place : Place} {l : Leaf} {inner : String} {other : Relation}
    {siblings : List Node} (hlacks : ∀ frame ∈ place, frame.Lacks l.condition.id)
    (hparent : group id relation children ∈ (place.fill (group inner other siblings)).walk)
    (hchild : leaf l ∈ children) :
    group id relation children ∈ (group inner other siblings).walk := by
  induction place with
  | nil => exact hparent
  | cons frame inside ih =>
      rw [List.forall_mem_cons] at hlacks
      rcases hlacks with ⟨hframe, hinside⟩
      have hself : l.condition.id ∈ (leaf l).ids := by simp
      rw [fill_cons, Frame.fill] at hparent
      rcases mem_walk_group.mp hparent with heq | ⟨sibling, hsibling, hinner⟩
      -- The frame itself has other children.
      · rcases Node.group.inj heq with ⟨_, _, rfl⟩
        rcases List.mem_append.mp hchild with hbefore | hrest
        · exact absurd hself (hframe.before _ hbefore)
        · rcases List.mem_cons.mp hrest with hfill | hafter
          · exact absurd hfill (fill_group_ne_leaf inside l)
          · exact absurd hself (hframe.after _ hafter)
      · have hid := id_mem_ids_of_child hinner hchild
        rcases List.mem_append.mp hsibling with hbefore | hrest
        · exact absurd hid (hframe.before _ hbefore)
        · rcases List.mem_cons.mp hrest with rfl | hafter
          · exact ih hinside hinner
          · exact absurd hid (hframe.after _ hafter)

/-! ## Groups with a new last child -/

/-- A group with a new last child combines a node with it, if it has the formula of a group of both,
and its other children make up the node. -/
theorem Place.combines_fill {place : Place} {inner : Node} {c : Condition} (siblings : List Node)
    (hnew : c.id ∉ (place.fill inner).ids)
    (hformula : ∀ outer, (group id relation (siblings ++ [leaf (.plain c)])).formula? =
      (group outer relation [inner, leaf (.plain c)]).formula?)
    (hleaves : siblings.flatMap leaves = inner.leaves)
    (houtline : inner.outline.Sublist (group id relation siblings).outline)
    (hsiblings : ∀ sibling ∈ siblings, c.id ∉ sibling.ids) :
    place.Combines inner relation c
      (place.fill (group id relation (siblings ++ [leaf (.plain c)]))) where
  views outer := Filter.sameViews_tree (formula?_fill_congr (hformula outer) place)
  old_leaves := place.leaves_fill inner
  new_leaves := by
    rw [place.leaves_fill, leaves_group, List.flatMap_append, hleaves, List.flatMap_singleton,
      leaves_leaf]
  has_parent := ⟨id, _, place.mem_walk_fill _, by simp⟩
  relation_of_parent := by
    intro parent other children hparent hchild
    have hmem := Place.mem_walk_of_child (Place.lacks_of_not_mem hnew) hparent hchild
    rcases mem_walk_group.mp hmem with heq | ⟨sibling, hsibling, hinner⟩
    · exact (Node.group.inj heq).2.1
    · rcases List.mem_append.mp hsibling with hold | hlast
      · exact absurd (id_mem_ids_of_child hinner hchild) (hsiblings _ hold)
      · rw [List.mem_singleton.mp hlast, walk, List.mem_singleton] at hinner
        contradiction
  kept := by
    rw [place.outline_fill, place.outline_fill]
    refine .append_right (.append_left (houtline.trans ?_) _) _
    rw [outline_group, outline_group, List.flatMap_append]
    exact (List.sublist_append_left _ _).cons_cons _

/-- Attaching a condition to a node of a tree without repeated identifiers combines the two. -/
theorem combines_attach {root inner : Node} {target : String} {c : Condition}
    (hdistinct : root.ids.Nodup) (hinner : inner ∈ root.walk) (hid : inner.id = target)
    (hnew : c.id ∉ root.ids) (relation : Relation) (ids : IdSupply) :
    ∃ place : Place, root = place.fill inner ∧
      place.Combines inner relation c
        (attach target relation (leaf (.plain c)) ids root).1 := by
  have hmem : target ∈ root.ids := List.mem_map.mpr ⟨inner, hinner, hid⟩
  obtain ⟨place, found, rfl, hfoundId, hcases⟩ :=
    attach_eq_fill relation (leaf (.plain c)) hdistinct hmem ids
  -- The node in the place is the one that was meant, as there is no other one of its identifier.
  obtain rfl := List.inj_on_of_nodup_map hdistinct (place.mem_walk_fill found) hinner
    (hfoundId.trans hid.symm)
  have hlacks : c.id ∉ found.ids := fun h => hnew (place.ids_subset_ids_fill found h)
  refine ⟨place, rfl, ?_⟩
  rcases hcases with ⟨children, rfl, hattach⟩ | hattach
  · rw [hattach]
    refine Place.combines_fill children hnew
      (fun outer => formula?_extended target outer relation children _) (leaves_group _ _ _).symm
      (.refl _) (not_mem_ids_group.mp hlacks).2
  · rw [hattach]
    refine Place.combines_fill [found] hnew (fun outer => ?_) ?_ ?_ ?_
    · rw [formula?_group, formula?_group, List.singleton_append]
    · rw [List.flatMap_singleton]
    · rw [outline_group, List.flatMap_singleton]
      exact List.sublist_cons_self _ _
    · simpa using hlacks

end Node

namespace Tree

/-- A condition that is added to a node of a tree without repeated identifiers, under an identifier
that is not taken, is combined with it by the relation that is asked for. -/
theorem add_combines {tree : Tree} {parent : String} {inner : Node} {relation condition : Input}
    {given : Option Relation} {c : Condition} {ids read : IdSupply}
    (hdistinct : tree.nodeIds.Nodup) (hfind : tree.find? parent = some inner)
    (hgiven : Relation.resolve relation = .ok given)
    (hread : (Reading.treeCondition condition).run ids = .ok (c, read))
    (hnew : c.id ∉ tree.nodeIds) :
    ∃ (place : Node.Place) (new : Node) (left : IdSupply),
      tree.root = some (place.fill inner) ∧
        tree.add (some parent) relation condition ids =
          .ok (some { tree with root := some new }, left) ∧
        place.Combines inner (given.getD .and) c new := by
  have hmem := List.mem_of_find?_eq_some hfind
  rcases tree with ⟨treeId, _ | root⟩
  · contradiction
  · obtain ⟨place, hroot, hcombines⟩ :=
      Node.combines_attach hdistinct hmem (find?_id hfind) hnew (given.getD .and) read
    have hparent : hasId ⟨treeId, some root⟩ parent = true := by rw [hasId, hfind]; rfl
    exact ⟨place, _, _, congrArg some hroot, add_eq rfl hparent hread hgiven hnew, hcombines⟩

/-- A condition is added by "and" to a group of "or" that stands inside a group of "and" and has a
condition in it that cannot be used. -/
theorem add_combines_inside_groups :
    let host : Node := .leaf (.plain { id := "a", field := "host", operator := some .present })
    let begun : Node := .leaf (.plain { id := "b", field := "bytes" })
    let user : Node := .leaf (.plain { id := "d", field := "user", operator := some .absent })
    let size : Condition := { id := "c", field := "size", operator := some .present }
    let input : Input := .object [("id", .text "c"), ("field", .text "size"),
      ("operator", .text Operator.present.name)]
    let either : Node := .group "h" .or [begun, user]
    let tree : Tree := { id := "t", root := some (.group "g" .and [host, either]) }
    tree.find? "h" = some either ∧
      ∃ (place : Node.Place) (new : Node) (left : IdSupply),
        tree.root = some (place.fill either) ∧
          tree.add (some "h") (.text "and") input ⟨"n", 0⟩ =
            .ok (some { tree with root := some new }, left) ∧
          place.Combines either .and size new := by
  intro host begun user size input either tree
  have hdistinct : tree.nodeIds.Nodup := by decide +kernel
  have hnew : size.id ∉ tree.nodeIds := by decide +kernel
  have hfind : tree.find? "h" = some either := rfl
  have hgiven : Relation.resolve (.text "and") = .ok (some .and) := rfl
  exact ⟨hfind, add_combines hdistinct hfind hgiven rfl hnew⟩

end Tree

end FilterQuery
