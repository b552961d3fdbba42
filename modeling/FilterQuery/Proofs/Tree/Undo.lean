import FilterQuery.Proofs.Tree.Perform

/-!
# Adding and removing

A condition that was added is taken out again by its identifier.  What is left is the tree that was
there before, in normal form: the new groups have one child each and give way to it, and nothing
else was changed.  The old tree may have any shape, and any identifier in it may occur more than
once.

Main results:

- `Node.normalize_remove_attach`: what is taken out after it was attached leaves the normal form.
- `Node.id_mem_ids_attach`: what is attached to a node that is there can be taken out again.
- `Tree.remove_add`: adding a condition and removing it brings a tree into normal form.
-/

namespace FilterQuery

namespace Node

variable {target : String} {relation : Relation} {added : Node}

/-- A group of one child has the normal form of the child. -/
theorem normalize_singleton (id : String) (relation : Relation) (child : Node) :
    (group id relation [child]).normalize = child.normalize := by
  rw [normalize_group]
  cases h : child.normalize <;> simp [h, regroup]

/-- What is attached and taken out again leaves a node in its normal form, as long as its identifier
does not occur there and is not drawn. -/
theorem normalize_remove_attach {node : Node} (hnew : added.id ∉ node.ids) {ids : IdSupply}
    (hdrawn : added.id ∉ ids.drawn (attach target relation added ids node).2) :
    ((attach target relation added ids node).1.remove added.id).bind normalize =
      node.normalize := by
  refine attach_induction (motive := fun old new drawn => added.id ∉ drawn → added.id ∉ old.ids →
    (new.remove added.id).bind normalize = old.normalize)
    ?kept ?extended ?wrapped ?inside node ids hdrawn hnew
  case kept =>
    intro l _ _ hold
    rw [remove_of_not_mem hold, Option.bind_some]
  case extended =>
    intro children _ hold
    rw [remove_last hold, Option.bind_some]
  case wrapped =>
    intro old id _ hid hold
    -- The new group keeps its first child alone, and gives way to it.
    have hpair : added.id ∉ (group id relation [old]).ids := by
      rw [List.mem_singleton] at hid
      simpa using ⟨hid, hold⟩
    rw [← List.singleton_append, remove_last hpair, Option.bind_some, normalize_singleton]
  case inside =>
    intro id inner children changed _ hchanged hdrawn hold
    rw [ids_group, List.mem_cons, not_or] at hold
    rcases hold with ⟨hid, hold⟩
    -- Taking out and normalizing go through the children one by one, so they do so at once.
    have hchildren : changed.filterMap (fun new => (new.1.remove added.id).bind normalize) =
        children.filterMap normalize := by
      clear hid
      induction hchanged with
      | nil => rfl
      | cons hchild _ ih =>
          rw [List.flatMap_cons, List.mem_append, not_or] at hdrawn hold
          simp only [List.filterMap_cons, hchild hdrawn.1 hold.1, ih hdrawn.2 hold.2]
    rw [remove_group, if_neg (Ne.symm hid), List.filterMap_map, Option.bind_some, normalize_group,
      List.filterMap_filterMap, normalize_group]
    exact congrArg (regroup id inner) hchildren

variable (relation added) in
/-- What is attached to a node that is there is there afterwards. -/
theorem id_mem_ids_attach {node : Node} (htarget : target ∈ node.ids) (ids : IdSupply) :
    added.id ∈ (attach target relation added ids node).1.ids := by
  -- Shown the other way round, as what no child has is passed on to the group.
  refine not_imp_not.mp (attach_induction (motive := fun old new _ => added.id ∉ new.ids →
    target ∉ old.ids) ?kept ?extended ?wrapped ?inside node ids) htarget
  case kept => exact fun l hid _ => by simpa using Ne.symm hid
  case extended =>
    intro children hgone
    exact absurd (id_mem_ids_of_child (mem_walk _) (by simp)) hgone
  case wrapped =>
    intro old id _ hgone
    exact absurd (id_mem_ids_of_child (mem_walk _) (by simp)) hgone
  case inside =>
    intro id inner children changed hid hchanged hgone
    rw [not_mem_ids_group, List.forall_mem_map] at hgone
    rw [not_mem_ids_group]
    exact ⟨hid, Traversal.forall_mem_of_forall₂ hchanged.flip hgone.2⟩

end Node

namespace Tree

/-- A condition that is added to a tree, under an identifier that is not taken, can be removed
again.  This leaves the tree in normal form, as long as no group has drawn the identifier.  The
condition is added to any node of the tree, or to a tree without a node. -/
theorem remove_add {tree : Tree} {parent : Option String} {relation condition : Input}
    {given : Option Relation} {c : Condition} {ids read : IdSupply}
    (hparent : tree.root = none ∨ ∃ target, parent = some target ∧ tree.hasId target = true)
    (hgiven : Relation.resolve relation = .ok given)
    (hread : (Reading.treeCondition condition).run ids = .ok (c, read))
    (hnew : c.id ∉ tree.nodeIds) :
    ∃ new left, tree.add parent relation condition ids = .ok (some new, left) ∧
      (c.id ∉ read.drawn left → new.remove c.id = some (tree.normalized?.getD tree)) := by
  rw [getD_normalized?]
  rcases tree with ⟨treeId, _ | root⟩
  · have hadd : add ⟨treeId, none⟩ parent relation condition ids =
        .ok (some ⟨treeId, some (.leaf (.plain c))⟩, read) := by
      unfold add
      rw [Reading.call_eq_ok_iff.mpr hread]
      rfl
    refine ⟨_, _, hadd, fun _ => ?_⟩
    have hleaf : (Node.leaf (.plain c)).remove c.id = none :=
      Node.remove_id (.leaf (.plain c))
    rw [remove_eq rfl (hasId_iff.mpr (Node.id_mem_ids _)), hleaf]
  · obtain ⟨target, rfl, htarget⟩ := hparent.resolve_left (Option.some_ne_none root)
    refine ⟨_, _, add_eq rfl htarget hread hgiven hnew, fun hdrawn => ?_⟩
    have hthere := Node.id_mem_ids_attach (given.getD .and) (.leaf (.plain c))
      (hasId_iff.mp htarget) read
    have hleaf : (Node.leaf (.plain c)).id ∉ root.ids := hnew
    rw [remove_eq rfl (hasId_iff.mpr hthere)]
    exact congrArg (fun root => some (Tree.mk treeId root))
      (Node.normalize_remove_attach hleaf hdrawn)

/-- A condition is added to two groups of one identifier, an empty one and one with an only child,
and is removed from both.  Both groups go, and so does one that was not touched. -/
theorem remove_add_of_repeated_id :
    let a : Node := .leaf (.plain { id := "a" })
    let b : Node := .leaf (.plain { id := "b" })
    let c : Node := .leaf (.plain { id := "c" })
    let ids : IdSupply := ⟨"n", 0⟩
    let tree : Tree := { id := "t", root := some (.group "g" .and
      [.group "h" .or [], a, .group "i" .or [a], .group "h" .or [b]]) }
    let grown : Tree := { id := "t", root := some (.group "g" .and
      [.group ids.mint.1 .and [.group "h" .or [], c], a, .group "i" .or [a],
        .group ids.mint.2.mint.1 .and [.group "h" .or [b], c]]) }
    tree.add (some "h") .null (.object [("id", .text "c")]) ids =
        .ok (some grown, ids.advance 2) ∧
      grown.remove "c" = some { id := "t", root := some (.group "g" .and [a, a, b]) } := by
  intro a b c ids tree grown
  have hparent : tree.root = none ∨ ∃ target, some "h" = some target ∧ tree.hasId target = true :=
    .inr ⟨"h", rfl, rfl⟩
  have hgiven : Relation.resolve .null = .ok none := rfl
  have hread : (Reading.treeCondition (.object [("id", .text "c")])).run ids =
      .ok ({ id := "c" }, ids) := rfl
  have hgrown : tree.add (some "h") .null (.object [("id", .text "c")]) ids =
      .ok (some grown, ids.advance 2) := rfl
  obtain ⟨new, left, hadd, hundo⟩ := remove_add hparent hgiven hread (by decide +kernel)
  rcases Prod.mk.inj (Except.ok.inj (hadd.symm.trans hgrown)) with ⟨hnew, rfl⟩
  rcases Option.some.inj hnew with rfl
  exact ⟨hgrown, hundo (by decide +kernel)⟩

end Tree

end FilterQuery
