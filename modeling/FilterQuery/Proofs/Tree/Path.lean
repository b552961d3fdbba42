import FilterQuery.Proofs.DistinctTexts
import FilterQuery.Proofs.Tree.Place

/-!
# Paths in trees

A node is found by a walk through the tree, and the path to it by a search that goes down into one
child after the other and puts the path together on its way back.  Identifiers may occur more than
once, among siblings as well as one below the other.  Both still come to the same node: the first
one that the walk meets.  The path lists the groups around the place where that node stands, from
the root down, and then the node.

Main results:

- `Place.isFirst_cons`: the first node with an identifier, seen from a group around it.
- `exists_isFirst_of_mem_ids`: an identifier that occurs belongs to a first node.
- `Place.pathTo?_fill`: the path to the first node lists the groups around its place.
- `Place.exists_walk_fill`: the walk comes to a place behind everything that is ahead of it.
- `Tree.path_leads_to_found`: the path and the node that is found, for every tree and identifier.
- `Tree.path_to_repeated_identifier`: where a group and a leaf below it share their identifier.
-/

namespace FilterQuery

namespace Node

variable {target : String} {place : Place} {found : Node}

/-! ## The first node with an identifier -/

/-- The identifiers of the groups around a place, from the root down. -/
def Place.above (place : Place) : List String :=
  place.map Frame.id

/-- Whether the node in a place is the first one of the tree that has an identifier. -/
structure Place.IsFirst (place : Place) (found : Node) (target : String) : Prop where
  id_eq : found.id = target
  ahead : ∀ earlier ∈ place.ahead, earlier.id ≠ target

/-- A node has its identifier also without what is below it. -/
@[simp]
theorem id_bare (node : Node) : node.bare.id = node.id := by
  cases node <;> rfl

/-- A node is the first one with an identifier below a group if the group has another one and none
of the children before the place has it anywhere. -/
theorem Place.isFirst_cons {frame : Frame} {inside : Place} :
    IsFirst (frame :: inside) found target ↔
      frame.id ≠ target ∧ (∀ sibling ∈ frame.before, target ∉ sibling.ids) ∧
        IsFirst inside found target := by
  have hahead : (∀ earlier ∈ ahead (frame :: inside), earlier.id ≠ target) ↔
      frame.id ≠ target ∧ (∀ sibling ∈ frame.before, target ∉ sibling.ids) ∧
        ∀ earlier ∈ ahead inside, earlier.id ≠ target := by
    rw [ahead, List.cons_append, List.forall_mem_cons, List.forall_mem_append,
      List.forall_mem_flatMap]
    simp only [ids_eq_map_outline, List.mem_map, not_exists, not_and, Node.id]
  constructor
  · rintro ⟨hid, hfirst⟩
    obtain ⟨hframe, hbefore, hinside⟩ := hahead.mp hfirst
    exact ⟨hframe, hbefore, hid, hinside⟩
  · rintro ⟨hframe, hbefore, hid, hinside⟩
    exact ⟨hid, hahead.mpr ⟨hframe, hbefore, hinside⟩⟩

/-- No group around the first node with an identifier has it as well. -/
theorem Place.IsFirst.not_mem_above (h : place.IsFirst found target) : target ∉ place.above := by
  induction place with
  | nil => exact List.not_mem_nil
  | cons frame inside ih =>
      obtain ⟨hframe, _, hinside⟩ := Place.isFirst_cons.mp h
      rw [Place.above, List.map_cons, List.mem_cons, not_or]
      exact ⟨Ne.symm hframe, ih hinside⟩

/-- An identifier that occurs in a node belongs to a first one. -/
theorem exists_isFirst_of_mem_ids {node : Node} (h : target ∈ node.ids) :
    ∃ (place : Place) (found : Node), node = place.fill found ∧ place.IsFirst found target := by
  induction node with
  | leaf l =>
      rw [ids_leaf, List.mem_singleton] at h
      exact ⟨[], leaf l, rfl, h.symm, List.forall_mem_nil _⟩
  | group id relation children ih =>
      by_cases hid : id = target
      · exact ⟨[], group id relation children, rfl, hid, List.forall_mem_nil _⟩
      · -- The search goes down into the first child in which the identifier occurs.
        have hsome : (children.find? fun child => decide (target ∈ child.ids)).isSome = true := by
          rw [List.find?_isSome]
          rw [ids_group, List.mem_cons, List.mem_flatMap] at h
          obtain ⟨child, hchild, hmem⟩ := h.resolve_left (Ne.symm hid)
          exact ⟨child, hchild, decide_eq_true hmem⟩
        obtain ⟨child, hfind⟩ := Option.isSome_iff_exists.mp hsome
        obtain ⟨hmem, before, after, rfl, hbefore⟩ := List.find?_eq_some_iff_append.mp hfind
        obtain ⟨inside, found, rfl, hfirst⟩ := ih child (by simp) (of_decide_eq_true hmem)
        refine ⟨⟨id, relation, before, after⟩ :: inside, found, rfl, ?_⟩
        refine Place.isFirst_cons.mpr ⟨hid, fun sibling hsibling => ?_, hfirst⟩
        simpa using hbefore sibling hsibling

/-! ## The path -/

/-- The children of a group are tried one after the other. -/
theorem pathThrough?_eq_findSome? (target : String) (children : List Node) :
    pathThrough? target children = children.findSome? (pathTo? target) := by
  induction children with
  | nil => rfl
  | cons child rest ih =>
      rw [pathThrough?, List.findSome?_cons, ih]
      cases child.pathTo? target <;> rfl

/-- The path into a group starts with the group and goes on in the first child that has one. -/
theorem pathTo?_group (target id : String) (relation : Relation) (children : List Node) :
    (group id relation children).pathTo? target =
      if id = target then some [id]
      else (children.findSome? (pathTo? target)).map (id :: ·) := by
  rw [pathTo?, pathThrough?_eq_findSome?]

/-- A node with the identifier is the end of the path. -/
theorem pathTo?_of_id_eq (h : found.id = target) : found.pathTo? target = some [target] := by
  cases found with
  | leaf l =>
      have hid : l.condition.id = target := h
      rw [pathTo?_leaf, if_pos hid, hid]
  | group id relation children =>
      have hid : id = target := h
      rw [pathTo?_group, if_pos hid, hid]

/-- There is no path to an identifier that does not occur. -/
theorem pathTo?_of_not_mem {node : Node} (h : target ∉ node.ids) : node.pathTo? target = none := by
  induction node with
  | leaf l =>
      rw [ids_leaf, List.mem_singleton] at h
      rw [pathTo?_leaf, if_neg (Ne.symm h)]
  | group id relation children ih =>
      obtain ⟨hid, hchildren⟩ := not_mem_ids_group.mp h
      have hnone : children.findSome? (pathTo? target) = none := by
        rw [List.findSome?_eq_none_iff]
        exact fun child hchild => ih child hchild (hchildren child hchild)
      rw [pathTo?_group, if_neg hid, hnone, Option.map_none]

/-- The path to the first node with an identifier lists the groups around its place. -/
theorem Place.pathTo?_fill (h : place.IsFirst found target) :
    (place.fill found).pathTo? target = some (place.above ++ [target]) := by
  induction place with
  | nil => exact pathTo?_of_id_eq h.id_eq
  | cons frame inside ih =>
      obtain ⟨hframe, hbefore, hinside⟩ := isFirst_cons.mp h
      have hnone : frame.before.findSome? (pathTo? target) = none := by
        rw [List.findSome?_eq_none_iff]
        exact fun sibling hsibling => pathTo?_of_not_mem (hbefore sibling hsibling)
      rw [fill_cons, Frame.fill, pathTo?_group, if_neg hframe, List.findSome?_append, hnone,
        Option.none_or, List.findSome?_cons, ih hinside]
      rfl

/-! ## The walk -/

/-- The walk of a node starts with the node. -/
theorem exists_walk_eq_cons (node : Node) : ∃ below, node.walk = node :: below := by
  cases node with
  | leaf l => exact ⟨[], by rw [walk]⟩
  | group id relation children => exact ⟨_, walk_group id relation children⟩

/-- The walk through a tree comes to the node in a place behind everything that is ahead of it. -/
theorem Place.exists_walk_fill (place : Place) (found : Node) :
    ∃ front back, (place.fill found).walk = front ++ found :: back ∧
      front.map bare = place.ahead := by
  induction place with
  | nil =>
      obtain ⟨below, hwalk⟩ := found.exists_walk_eq_cons
      exact ⟨[], below, hwalk, rfl⟩
  | cons frame inside ih =>
      obtain ⟨front, back, hwalk, hfront⟩ := ih
      refine ⟨(frame.fill (fill inside found) :: frame.before.flatMap walk) ++ front,
        back ++ frame.after.flatMap walk, ?_, ?_⟩
      · rw [fill_cons, Frame.fill, walk_group, List.flatMap_append, List.flatMap_cons, hwalk]
        simp only [List.append_assoc, List.cons_append]
      · rw [List.map_append, List.map_cons, List.map_flatMap, hfront]
        rfl

end Node

namespace Tree

variable {tree : Tree} {id : String} {place : Node.Place} {found : Node}

/-! ## Nodes that are found -/

/-- Whether a place of a tree holds the first node with an identifier: the walk comes to the node
behind what is ahead of the place, and to no such identifier before. -/
structure HoldsFirst (tree : Tree) (id : String) (place : Node.Place) (found : Node) : Prop where
  root_eq : tree.root = some (place.fill found)
  id_eq : found.id = id
  walk_eq : ∃ front back, tree.walk = front ++ found :: back ∧
    front.map Node.bare = place.ahead ∧ ∀ earlier ∈ front, earlier.id ≠ id

/-- The identifiers in use are those of the nodes. -/
theorem mem_ids_iff : id ∈ tree.ids ↔ id ∈ tree.nodeIds := by
  have hcollected : tree.ids = tree.nodeIds.foldl Suggestion.insertText [] := rfl
  rw [hcollected, Suggestion.mem_foldl_insertText]
  simp

/-- An identifier that occurs in a tree belongs to a first node. -/
theorem exists_isFirst (h : id ∈ tree.nodeIds) :
    ∃ (place : Node.Place) (found : Node), tree.root = some (place.fill found) ∧
      place.IsFirst found id := by
  rcases tree with ⟨name, _ | root⟩
  · rw [nodeIds_none] at h
    contradiction
  · rw [nodeIds_some] at h
    obtain ⟨place, found, rfl, hfirst⟩ := Node.exists_isFirst_of_mem_ids h
    exact ⟨place, found, rfl, hfirst⟩

/-- The walk comes to the first node with an identifier before it comes to another one. -/
theorem holdsFirst_of_isFirst (hroot : tree.root = some (place.fill found))
    (h : place.IsFirst found id) : tree.HoldsFirst id place found := by
  obtain ⟨front, back, hwalk, hfront⟩ := place.exists_walk_fill found
  have htree : tree.walk = (place.fill found).walk := by rw [walk, hroot, Option.elim_some]
  refine ⟨hroot, h.id_eq, front, back, htree.trans hwalk, hfront, fun earlier hearlier => ?_⟩
  have hbare := h.ahead earlier.bare (hfront ▸ List.mem_map_of_mem hearlier)
  rwa [Node.id_bare] at hbare

/-- The first node with an identifier is found. -/
theorem HoldsFirst.find?_eq (h : tree.HoldsFirst id place found) : tree.find? id = some found := by
  obtain ⟨front, back, hwalk, _, hfront⟩ := h.walk_eq
  rw [find?, List.find?_eq_some_iff_append]
  exact ⟨by simpa using h.id_eq, front, back, hwalk, fun earlier hearlier => by
    simpa using hfront earlier hearlier⟩

/-- Nothing is found of an identifier that does not occur. -/
theorem find?_of_not_mem (h : id ∉ tree.nodeIds) : tree.find? id = none := by
  rw [← hasId_iff, hasId, Bool.not_eq_true, Option.isSome_eq_false_iff] at h
  exact Option.isNone_iff_eq_none.mp h

/-- There is no path to it either. -/
theorem path_of_not_mem (h : id ∉ tree.nodeIds) : tree.path id = [] := by
  rcases tree with ⟨name, _ | root⟩
  · rfl
  · rw [nodeIds_some] at h
    rw [path, Option.bind_some, Node.pathTo?_of_not_mem h, Option.getD_none]

/-- The path to the first node with an identifier lists the groups around its place. -/
theorem path_of_isFirst (hroot : tree.root = some (place.fill found))
    (h : place.IsFirst found id) : tree.path id = place.above ++ [id] := by
  rw [path, hroot, Option.bind_some, Node.Place.pathTo?_fill h, Option.getD_some]

/-- A path starts at the root. -/
theorem head?_path (hroot : tree.root = some (place.fill found)) (h : found.id = id) :
    (place.above ++ [id]).head? = tree.root.map Node.id := by
  rw [hroot, Option.map_some]
  cases place with
  | nil => exact congrArg some h.symm
  | cons frame inside => rfl

/-! ## Paths and nodes -/

/-- Looking for a node and for the path to it come to the same, also where identifiers are repeated.
There is a path exactly where a node is found, and where the identifier is in use.  The node that
is found is the first one with the identifier in the order of the walk, and the path leads to the
place of that very node: it lists the groups around the place, from the root down, none of which has
the identifier, and then the node. -/
theorem path_leads_to_found (tree : Tree) (id : String) :
    (tree.path id ≠ [] ↔ ∃ found, tree.find? id = some found) ∧
      (tree.path id ≠ [] ↔ id ∈ tree.ids) ∧
      (tree.path id ≠ [] → ∃ place found, tree.find? id = some found ∧
        tree.HoldsFirst id place found ∧ tree.path id = place.above ++ [id] ∧
        id ∉ place.above ∧ (tree.path id).head? = tree.root.map Node.id ∧
        (tree.path id).getLast? = some id) := by
  by_cases hmem : id ∈ tree.nodeIds
  · obtain ⟨place, found, hroot, hfirst⟩ := exists_isFirst hmem
    have hholds := holdsFirst_of_isFirst hroot hfirst
    have hpath := path_of_isFirst hroot hfirst
    have hne : tree.path id ≠ [] := by simp [hpath]
    refine ⟨iff_of_true hne ⟨found, hholds.find?_eq⟩, iff_of_true hne (mem_ids_iff.mpr hmem),
      fun _ => ⟨place, found, hholds.find?_eq, hholds, hpath, hfirst.not_mem_above, ?_, ?_⟩⟩
    · rw [hpath]
      exact head?_path hroot hfirst.id_eq
    · rw [hpath, List.getLast?_concat]
  · have hnone : ¬tree.path id ≠ [] := not_not.mpr (path_of_not_mem hmem)
    refine ⟨iff_of_false hnone ?_, iff_of_false hnone (mt mem_ids_iff.mp hmem),
      fun h => absurd h hnone⟩
    simp [find?_of_not_mem hmem]

/-- Where a group, the leaf in it and a later leaf have one identifier, the group is found, and the
path ends at it. -/
theorem path_to_repeated_identifier :
    let leaf := Node.leaf (.plain { id := "b", field := "bytes" })
    let found := Node.group "b" .or [leaf]
    let tree : Tree := ⟨"t", some (.group "g" .and [.group "a" .or [found], leaf])⟩
    tree.path "b" = ["g", "a", "b"] ∧ tree.find? "b" = some found ∧
      ∃ place, tree.HoldsFirst "b" place found ∧ place.above = ["g", "a"] := by
  intro leaf found tree
  have hpath : tree.path "b" = ["g", "a", "b"] := rfl
  have hfind : tree.find? "b" = some found := rfl
  obtain ⟨place, node, hnode, hholds, habove, _⟩ :=
    (path_leads_to_found tree "b").2.2 (by rw [hpath]; exact List.cons_ne_nil _ _)
  rcases Option.some.inj (hfind.symm.trans hnode) with rfl
  have hjoined : place.above ++ ["b"] = ["g", "a"] ++ ["b"] := habove.symm.trans hpath
  exact ⟨hpath, hfind, place, hholds, List.append_cancel_right hjoined⟩

end Tree

end FilterQuery
