import FilterQuery.Proofs.Tree.Edit

/-!
# Places in trees

A place in a tree is where a node stands: the groups around it, each with the children before and
after it.  A tree is a node that fills a place, and an edit of a node whose identifier does not
occur around it changes what fills the place, and nothing else.

What a node and all nodes below it are by themselves, without what is below each of them, is the
outline of the node.  The identifiers and the leaves of a node are read off its outline, and the
outline of a tree is that of the node in a place, with what is visited ahead of it and behind it.

Main results:

- `exists_fill_of_mem_walk`: every node of a tree has its place there.
- `Place.outline_fill`, `Place.leaves_fill`: what is visited in a tree, and its leaves, from those
  of the node in a place.
- `Place.attach_fill`, `Place.remove_fill`: an edit of the node in a place is an edit of the tree.
- `attach_eq_fill`: attaching extends the group in the place of its target, or makes a new one
  there.
- `perm_ids_attach`: an attached node brings its own identifiers, and those that were drawn.
-/

open scoped List

namespace FilterQuery.Node

/-! ## Outlines -/

/-- A node without what is below it. -/
def bare : Node → Node
  | leaf l => leaf l
  | group id relation _ => group id relation []

/-- A node and all nodes below it in the order of the walk, each without what is below it. -/
def outline (node : Node) : List Node :=
  node.walk.map bare

/-- The outline of a group starts with the group itself. -/
theorem outline_group (id : String) (relation : Relation) (children : List Node) :
    (group id relation children).outline =
      group id relation [] :: children.flatMap outline := by
  simp only [outline, walk_group, List.map_cons, List.map_flatMap, bare]
  rfl

/-- The leaves of a node are those of its outline. -/
theorem leaves_eq_filterMap_outline (node : Node) :
    node.leaves = node.outline.filterMap leaf? := by
  rw [leaves, outline, List.filterMap_map]
  refine List.filterMap_congr fun inner _ => ?_
  cases inner <;> rfl

/-- The identifiers of a node are those of its outline. -/
theorem ids_eq_map_outline (node : Node) : node.ids = node.outline.map id := by
  rw [ids, outline, List.map_map]
  refine List.map_congr_left fun inner _ => ?_
  cases inner <;> rfl

/-! ## Places -/

/-- A group around a place, with its children before and after the place. -/
structure Frame where
  id : String
  relation : Relation
  before : List Node
  after : List Node

/-- A place in a tree: the groups around it, from the outside in. -/
abbrev Place :=
  List Frame

/-- The group with a node in the place. -/
def Frame.fill (frame : Frame) (node : Node) : Node :=
  group frame.id frame.relation (frame.before ++ node :: frame.after)

namespace Place

/-- The tree with a node in the place. -/
def fill (place : Place) (node : Node) : Node :=
  place.foldr Frame.fill node

@[simp]
theorem fill_nil (node : Node) : fill [] node = node :=
  rfl

@[simp]
theorem fill_cons (frame : Frame) (inside : Place) (node : Node) :
    fill (frame :: inside) node = frame.fill (fill inside node) :=
  rfl

/-- What is visited in a tree ahead of a place. -/
def ahead : Place → List Node
  | [] => []
  | frame :: inside =>
      group frame.id frame.relation [] :: frame.before.flatMap outline ++ ahead inside

/-- What is visited in a tree behind a place. -/
def behind : Place → List Node
  | [] => []
  | frame :: inside => behind inside ++ frame.after.flatMap outline

/-- The outline of a tree is that of the node in a place, between what is ahead of it and what is
behind it. -/
theorem outline_fill (place : Place) (node : Node) :
    (place.fill node).outline = place.ahead ++ node.outline ++ place.behind := by
  induction place with
  | nil => simp [ahead, behind]
  | cons frame inside ih =>
      rw [fill_cons, Frame.fill, outline_group, List.flatMap_append, List.flatMap_cons, ih, ahead,
        behind]
      simp only [List.cons_append, List.append_assoc]

/-- So are its leaves. -/
theorem leaves_fill (place : Place) (node : Node) :
    (place.fill node).leaves =
      place.ahead.filterMap leaf? ++ node.leaves ++ place.behind.filterMap leaf? := by
  simp only [leaves_eq_filterMap_outline, outline_fill, List.filterMap_append]

/-- The leaves ahead of a place are those of the children before it and those ahead inside. -/
theorem leaves_ahead_cons (frame : Frame) (inside : Place) :
    (ahead (frame :: inside)).filterMap leaf? =
      frame.before.flatMap leaves ++ inside.ahead.filterMap leaf? := by
  have hgroup : leaf? (group frame.id frame.relation []) = none := rfl
  rw [ahead, List.cons_append, List.filterMap_cons_none hgroup, List.filterMap_append,
    List.filterMap_flatMap]
  simp only [← leaves_eq_filterMap_outline]

theorem leaves_behind_cons (frame : Frame) (inside : Place) :
    (behind (frame :: inside)).filterMap leaf? =
      inside.behind.filterMap leaf? ++ frame.after.flatMap leaves := by
  rw [behind, List.filterMap_append, List.filterMap_flatMap]
  simp only [← leaves_eq_filterMap_outline]

/-- The identifiers of a tree are those of the node in a place, between those around it. -/
theorem ids_fill (place : Place) (node : Node) :
    (place.fill node).ids = place.ahead.map id ++ node.ids ++ place.behind.map id := by
  simp only [ids_eq_map_outline, outline_fill, List.map_append]

/-- The identifiers of a node in a place are among those of the tree. -/
theorem ids_subset_ids_fill (place : Place) (node : Node) : node.ids ⊆ (place.fill node).ids := by
  rw [ids_fill]
  exact fun id hid => List.mem_append_left _ (List.mem_append_right _ hid)

/-- The node in a place is visited in the tree. -/
theorem mem_walk_fill (place : Place) (node : Node) : node ∈ (place.fill node).walk := by
  induction place with
  | nil => exact node.mem_walk
  | cons frame inside ih =>
      rw [fill_cons, Frame.fill]
      exact mem_walk_group.mpr (.inr ⟨_, by simp, ih⟩)

/-- A node in a tree without repeated identifiers has none either. -/
theorem nodup_ids_of_fill (place : Place) {node : Node} (h : (place.fill node).ids.Nodup) :
    node.ids.Nodup := by
  rw [ids_fill] at h
  exact h.of_append_left.of_append_right

end Place

/-- Every node of a tree has its place there. -/
theorem exists_fill_of_mem_walk {node inner : Node} (h : inner ∈ node.walk) :
    ∃ place : Place, node = place.fill inner := by
  induction node with
  | leaf l =>
      rw [walk, List.mem_singleton] at h
      exact ⟨[], h.symm⟩
  | group id relation children ih =>
      rcases mem_walk_group.mp h with rfl | ⟨child, hchild, hinner⟩
      · exact ⟨[], rfl⟩
      · rcases ih child hchild hinner with ⟨inside, rfl⟩
        rcases List.append_of_mem hchild with ⟨before, after, rfl⟩
        exact ⟨⟨id, relation, before, after⟩ :: inside, rfl⟩

/-! ## What does not occur around a place -/

/-- Whether an identifier does not occur in a frame. -/
structure Frame.Lacks (frame : Frame) (id : String) : Prop where
  id_ne : frame.id ≠ id
  before : ∀ sibling ∈ frame.before, id ∉ sibling.ids
  after : ∀ sibling ∈ frame.after, id ∉ sibling.ids

/-- An identifier that does not occur in a group does not occur in the frame of any of its
children. -/
theorem Frame.lacks_of_not_mem {frame : Frame} {node : Node} {id : String}
    (h : id ∉ (frame.fill node).ids) : frame.Lacks id := by
  rw [fill, not_mem_ids_group, List.forall_mem_append, List.forall_mem_cons] at h
  exact ⟨h.1, h.2.1, h.2.2.2⟩

/-- An identifier of the node in a frame does not occur in the frame, if none occurs twice. -/
theorem Frame.lacks_of_mem {frame : Frame} {node : Node} {id : String}
    (hnodup : (frame.fill node).ids.Nodup) (h : id ∈ node.ids) : frame.Lacks id := by
  rw [fill, ids_group, List.nodup_cons, List.flatMap_append, List.flatMap_cons] at hnodup
  rcases hnodup with ⟨hid, hnodup⟩
  refine ⟨?_, fun sibling hsibling hmem => ?_, fun sibling hsibling hmem => ?_⟩
  · rintro rfl
    exact hid (List.mem_append_right _ (List.mem_append_left _ h))
  · exact List.disjoint_of_nodup_append hnodup (List.mem_flatMap.mpr ⟨sibling, hsibling, hmem⟩)
      (List.mem_append_left _ h)
  · exact List.disjoint_of_nodup_append hnodup.of_append_right h
      (List.mem_flatMap.mpr ⟨sibling, hsibling, hmem⟩)

namespace Place

variable {place : Place} {node : Node} {id : String}

/-- An identifier that does not occur in a tree does not occur around any place of it. -/
theorem lacks_of_not_mem (h : id ∉ (place.fill node).ids) : ∀ frame ∈ place, frame.Lacks id := by
  induction place with
  | nil => exact List.forall_mem_nil _
  | cons frame inside ih =>
      rw [List.forall_mem_cons]
      exact ⟨Frame.lacks_of_not_mem h, ih fun hmem => h (ids_subset_ids_fill [frame] _ hmem)⟩

/-- An identifier of the node in a place does not occur around it, if none occurs twice. -/
theorem lacks_of_mem (hnodup : (place.fill node).ids.Nodup) (h : id ∈ node.ids) :
    ∀ frame ∈ place, frame.Lacks id := by
  induction place with
  | nil => exact List.forall_mem_nil _
  | cons frame inside ih =>
      rw [List.forall_mem_cons]
      exact ⟨Frame.lacks_of_mem hnodup (ids_subset_ids_fill inside node h),
        ih (nodup_ids_of_fill [frame] hnodup)⟩

end Place

/-! ## Edits of the node in a place -/

section Edits

variable {target : String} {relation : Relation} {added node rest : Node} {place : Place}

/-- What is attached to the node in a frame is attached in the frame, if the identifier does not
occur there. -/
theorem Frame.attach_fill {frame : Frame} (h : frame.Lacks target) (ids : IdSupply) :
    attach target relation added ids (frame.fill node) =
      (frame.fill (attach target relation added ids node).1,
        (attach target relation added ids node).2) := by
  have hbefore : attachAll target relation added ids frame.before = (frame.before, ids) :=
    attachAll_of_not_mem fun sibling hsibling => attach_of_not_mem (h.before sibling hsibling) ids
  have hafter (ids : IdSupply) :
      attachAll target relation added ids frame.after = (frame.after, ids) :=
    attachAll_of_not_mem fun sibling hsibling => attach_of_not_mem (h.after sibling hsibling) ids
  simp only [fill, attach_group, if_neg h.id_ne, attachAll_append, hbefore, attachAll_cons, hafter]

/-- What is taken out of the node in a frame is taken out in the frame, if the identifier does not
occur there. -/
theorem Frame.remove_fill {frame : Frame} (h : frame.Lacks target)
    (hremove : node.remove target = some rest) :
    (frame.fill node).remove target = some (frame.fill rest) := by
  have hbefore := List.filterMap_congr fun sibling hsibling =>
    remove_of_not_mem (h.before sibling hsibling)
  have hafter := List.filterMap_congr fun sibling hsibling =>
    remove_of_not_mem (h.after sibling hsibling)
  rw [fill, remove_group, if_neg h.id_ne, List.filterMap_append,
    List.filterMap_cons_some hremove, hbefore, hafter, List.filterMap_some, List.filterMap_some]
  rfl

/-- What is attached to the node in a place is attached to the tree, if no identifier occurs
twice. -/
theorem Place.attach_fill (hnodup : (place.fill node).ids.Nodup) (htarget : target ∈ node.ids)
    (ids : IdSupply) :
    attach target relation added ids (place.fill node) =
      (place.fill (attach target relation added ids node).1,
        (attach target relation added ids node).2) := by
  have hlacks := lacks_of_mem hnodup htarget
  clear hnodup
  induction place with
  | nil => rfl
  | cons frame inside ih =>
      rw [List.forall_mem_cons] at hlacks
      rw [fill_cons, Frame.attach_fill hlacks.1, ih hlacks.2, fill_cons]

/-- What is taken out of the node in a place is taken out of the tree, if no identifier occurs
twice. -/
theorem Place.remove_fill (hnodup : (place.fill node).ids.Nodup) (htarget : target ∈ node.ids)
    (h : node.remove target = some rest) :
    (place.fill node).remove target = some (place.fill rest) := by
  have hlacks := lacks_of_mem hnodup htarget
  clear hnodup
  induction place with
  | nil => exact h
  | cons frame inside ih =>
      rw [List.forall_mem_cons] at hlacks
      exact Frame.remove_fill hlacks.1 (ih hlacks.2)

/-- A proper node keeps a tree proper in whose place it is put. -/
theorem Place.allProper_fill (htree : (place.fill node).AllProper) (hrest : rest.AllProper) :
    (place.fill rest).AllProper := by
  induction place with
  | nil => exact hrest
  | cons frame inside ih =>
      rw [fill_cons, Frame.fill, allProper_group, List.forall_mem_append,
        List.forall_mem_cons] at htree ⊢
      rcases htree with ⟨hlength, hbefore, hinside, hafter⟩
      exact ⟨by simpa using hlength, hbefore, ih hinside, hafter⟩

variable (relation added) in
/-- Attaching extends the group that has the identifier, if it is of the relation, and otherwise
puts the node that has it into a new group. -/
theorem attach_self (h : node.id = target) (ids : IdSupply) :
    (∃ children, node = group target relation children ∧
      attach target relation added ids node =
        (group target relation (children ++ [added]), ids)) ∨
      attach target relation added ids node =
        (group ids.mint.1 relation [node, added], ids.mint.2) := by
  cases node with
  | leaf l =>
      have hid : l.condition.id = target := h
      exact .inr (by rw [attach_leaf, if_pos hid])
  | group id inner children =>
      have hid : id = target := h
      subst hid
      by_cases hinner : inner = relation
      · subst hinner
        exact .inl ⟨children, rfl, by rw [attach_group, if_pos rfl, if_pos rfl]⟩
      · exact .inr (by rw [attach_group, if_pos rfl, if_neg hinner])

variable (relation added) in
/-- In a tree without repeated identifiers, attaching extends the group in the place of the
identifier, or puts the node there into a new group. -/
theorem attach_eq_fill (hnodup : node.ids.Nodup) (htarget : target ∈ node.ids) (ids : IdSupply) :
    ∃ (place : Place) (inner : Node), node = place.fill inner ∧ inner.id = target ∧
      ((∃ children, inner = group target relation children ∧
        attach target relation added ids node =
          (place.fill (group target relation (children ++ [added])), ids)) ∨
        attach target relation added ids node =
          (place.fill (group ids.mint.1 relation [inner, added]), ids.mint.2)) := by
  rcases List.mem_map.mp htarget with ⟨inner, hinner, hid⟩
  rcases exists_fill_of_mem_walk hinner with ⟨place, rfl⟩
  have hmem : target ∈ inner.ids := hid ▸ inner.id_mem_ids
  refine ⟨place, inner, rfl, hid, ?_⟩
  rw [Place.attach_fill hnodup hmem]
  rcases attach_self relation added hid ids with ⟨children, hgroup, hattach⟩ | hattach
  · exact .inl ⟨children, hgroup, by rw [hattach]⟩
  · exact .inr (by rw [hattach])

/-- Identifiers that come in with the node in a place come into the tree. -/
theorem Place.perm_ids_fill {new : List String} (h : rest.ids ~ new ++ node.ids) :
    (place.fill rest).ids ~ new ++ (place.fill node).ids := by
  rw [ids_fill, ids_fill]
  calc place.ahead.map Node.id ++ rest.ids ++ place.behind.map Node.id
      ~ place.ahead.map Node.id ++ (new ++ node.ids) ++ place.behind.map Node.id :=
        (h.append_left _).append_right _
    _ ~ new ++ (place.ahead.map Node.id ++ node.ids ++ place.behind.map Node.id) := by
        simpa only [List.append_assoc] using List.perm_append_comm_assoc _ new _

/-- An attached node brings its own identifiers, and that of a new group if one was drawn. -/
theorem perm_ids_attach (hnodup : node.ids.Nodup) (htarget : target ∈ node.ids)
    (ids : IdSupply) :
    ∃ count, (attach target relation added ids node).2 = ids.advance count ∧
      (attach target relation added ids node).1.ids ~
        ids.draws count ++ (added.ids ++ node.ids) := by
  obtain ⟨place, inner, rfl, _, hcases⟩ := attach_eq_fill relation added hnodup htarget ids
  have hnew : inner.ids ++ added.ids ~ added.ids ++ inner.ids := List.perm_append_comm
  rcases hcases with ⟨children, rfl, hattach⟩ | hattach
  · refine ⟨0, by rw [hattach]; rfl, ?_⟩
    rw [hattach, IdSupply.draws_zero, List.nil_append]
    exact Place.perm_ids_fill (by simpa using hnew)
  · refine ⟨1, by rw [hattach]; exact ids.mint_eq.2, ?_⟩
    rw [hattach, ids.mint_eq.1, ← List.append_assoc]
    exact Place.perm_ids_fill (by simpa using hnew)

end Edits

end FilterQuery.Node
