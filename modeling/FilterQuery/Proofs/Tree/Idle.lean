import FilterQuery.Proofs.Tree.Perform

/-!
# Edits without effect

An edit that goes through makes a new tree, and most edits make one that differs from the old one.
Two of them need not: an update may say what is there already, and a node may be moved to where it
stands.

Main results:

- `Node.modify_eq_self_iff`: an update leaves a node equal exactly when it says what is there.
- `Node.toggle_ne`, `Node.attach_ne`: flipping a relation and attaching a node never do.
- `Node.attach_remove`: a node that is the last one in its group is moved there without effect.
- `Tree.isIdle_of_perform`, `Tree.perform_of_isIdle`: which edits of a tree leave it equal.
-/

namespace FilterQuery

/-- A relation is never its own opposite. -/
theorem Relation.flipped_ne (relation : Relation) : relation.flipped ≠ relation := by
  cases relation <;> decide

namespace Node

/-! ## Updates -/

mutual

/-- The topmost nodes of an identifier. -/
def topmost (target : String) : Node → List Node
  | leaf l => if l.condition.id = target then [leaf l] else []
  | group id relation children =>
      if id = target then [group id relation children] else topmostAll target children

/-- The topmost nodes of an identifier in several nodes. -/
def topmostAll (target : String) : List Node → List Node
  | [] => []
  | child :: rest => child.topmost target ++ topmostAll target rest

end

/-- Whether a relation or an update says of a node what is there already. -/
def IsUpToDate (relation : Option Relation) (given : List (String × Input)) (ids : IdSupply) :
    Node → Prop
  | leaf l => (Reading.updatedLeaf given l).run ids = .ok (l, ids)
  | group _ inner _ => relation.getD inner = inner

/-- An update leaves several nodes equal if it does so at each of them. -/
theorem modifyAll_eq_self_iff {target : String} {relation : Option Relation}
    {given : List (String × Input)} {ids : IdSupply} {children : List Node}
    (hstep : ∀ child ∈ children, modify target relation given ids child = .ok (child, ids) ↔
      ∀ inner ∈ child.topmost target, inner.IsUpToDate relation given ids) :
    modifyAll target relation given ids children = .ok (children, ids) ↔
      ∀ inner ∈ topmostAll target children, inner.IsUpToDate relation given ids := by
  induction children with
  | nil => simp [modifyAll, topmostAll]
  | cons child rest ih =>
      rw [List.forall_mem_cons] at hstep
      rw [topmostAll, List.forall_mem_append, ← hstep.1, ← ih hstep.2, modifyAll]
      constructor
      · intro h
        rcases Traversal.bind_eq_ok_iff.mp h with ⟨⟨first, middle⟩, hfirst, hthen⟩
        rcases Traversal.bind_eq_ok_iff.mp hthen with ⟨⟨others, left⟩, hothers, hresult⟩
        obtain ⟨_, rfl⟩ := keepsFrame_modify hfirst
        rcases Prod.mk.inj (Except.ok.inj hresult) with ⟨hlist, rfl⟩
        rcases List.cons.inj hlist with ⟨rfl, rfl⟩
        exact ⟨hfirst, hothers⟩
      · rintro ⟨hfirst, hothers⟩
        refine Traversal.bind_eq_ok_iff.mpr ⟨_, hfirst, ?_⟩
        exact Traversal.bind_eq_ok_iff.mpr ⟨_, hothers, rfl⟩

/-- An update leaves a node equal exactly when it says of the topmost nodes of the identifier what
is there already. -/
theorem modify_eq_self_iff {target : String} {relation : Option Relation}
    {given : List (String × Input)} {ids : IdSupply} {node : Node} :
    modify target relation given ids node = .ok (node, ids) ↔
      ∀ inner ∈ node.topmost target, inner.IsUpToDate relation given ids := by
  induction node with
  | leaf l =>
      rw [modify, topmost]
      split
      · rw [List.forall_mem_singleton, IsUpToDate, ← Reading.call_eq_ok_iff]
        constructor
        · intro h
          rcases Traversal.map_eq_ok_iff.mp h with ⟨⟨updated, left⟩, hupdated, hresult⟩
          rcases Prod.mk.inj hresult with ⟨hleaf, rfl⟩
          rcases Node.leaf.inj hleaf with rfl
          exact hupdated
        · intro h
          exact Traversal.map_eq_ok_iff.mpr ⟨_, h, rfl⟩
      · simp
  | group id inner children ih =>
      rw [modify, topmost]
      split
      · simp [IsUpToDate]
      · rw [← modifyAll_eq_self_iff ih]
        constructor
        · intro h
          rcases Traversal.map_eq_ok_iff.mp h with ⟨⟨changed, left⟩, hchanged, hresult⟩
          rcases Prod.mk.inj hresult with ⟨hgroup, rfl⟩
          rcases Node.group.inj hgroup with ⟨_, _, rfl⟩
          exact hchanged
        · intro h
          exact Traversal.map_eq_ok_iff.mpr ⟨_, h, rfl⟩

/-! ## Edits that always have an effect -/

/-- Flipping the relation of a group that is there makes a difference. -/
theorem toggle_ne {target : String} {relation : Relation} {children : List Node} {node : Node}
    (h : group target relation children ∈ node.walk) : node.toggle target ≠ node := by
  induction node with
  | leaf l => simp [walk] at h
  | group id inner siblings ih =>
      rw [toggle]
      split
      · intro heq
        exact inner.flipped_ne (Node.group.inj heq).2.1
      · next hid =>
          rcases mem_walk_group.mp h with hself | ⟨child, hchild, hinner⟩
          · exact absurd (Node.group.inj hself).1.symm hid
          · rw [toggleAll_eq_map]
            intro heq
            have hall : siblings.map (toggle target) = siblings.map fun child => child := by
              rw [List.map_id']
              exact (Node.group.inj heq).2.2
            exact ih child hchild hinner (List.map_inj_left.mp hall child hchild)

/-- Nothing of an identifier is left when its nodes are taken out. -/
theorem not_mem_ids_remove (target : String) (node : Node) :
    target ∉ (node.remove target).elim [] ids := by
  induction node with
  | leaf l =>
      rw [remove]
      split
      · simp
      · next hid => simpa using Ne.symm hid
  | group id relation children ih =>
      rw [remove_group]
      split
      · simp
      · next hid =>
          rw [Option.elim_some, not_mem_ids_group]
          refine ⟨hid, fun kept hkept hinside => ?_⟩
          rcases List.mem_filterMap.mp hkept with ⟨child, hchild, hremove⟩
          apply ih child hchild
          rw [hremove]
          exact hinside

variable {target : String} {relation : Relation} {added : Node}

/-- Attaching to one of several nodes makes a difference if it does so at that one. -/
theorem attachAll_ne {children : List Node} {ids : IdSupply}
    (hstep : ∀ child ∈ children, target ∈ child.ids → ∀ ids,
      (attach target relation added ids child).1 ≠ child)
    (htarget : target ∈ children.flatMap Node.ids) :
    (attachAll target relation added ids children).1 ≠ children := by
  induction children generalizing ids with
  | nil => simp at htarget
  | cons child rest ih =>
      rw [attachAll_cons]
      intro heq
      rcases List.cons.inj heq with ⟨hfirst, hothers⟩
      rcases List.mem_append.mp (List.flatMap_cons ▸ htarget) with hchild | hrest
      · exact hstep child List.mem_cons_self hchild ids hfirst
      · exact ih (fun other hother => hstep other (List.mem_cons_of_mem _ hother)) hrest hothers

/-- Attaching a node to one that is there makes a difference. -/
theorem attach_ne {node : Node} (htarget : target ∈ node.ids) (ids : IdSupply) :
    (attach target relation added ids node).1 ≠ node := by
  induction node generalizing ids with
  | leaf l =>
      rw [ids_leaf, List.mem_singleton] at htarget
      rw [attach_leaf, if_pos htarget.symm]
      exact Node.noConfusion
  | group id inner children ih =>
      rw [attach_group]
      split
      · split
        · intro heq
          have hlength := congrArg List.length (Node.group.inj heq).2.2
          simp at hlength
        · -- The old group would have to be a part of itself.
          intro heq
          have hsize := congrArg sizeOf (Node.group.inj heq).2.2
          simp at hsize
          omega
      · next hid =>
          rw [ids_group, List.mem_cons] at htarget
          intro heq
          exact attachAll_ne ih (htarget.resolve_left (Ne.symm hid)) (Node.group.inj heq).2.2

/-! ## Moves -/

/-- Whether the new node became the last one of a group: the group is among some nodes without it,
and among others with it. -/
def GrewBy (target : String) (relation : Relation) (added : Node) (old new : List Node) : Prop :=
  ∃ before, group target relation before ∈ old ∧ group target relation (before ++ [added]) ∈ new

/-- A group that grew in a place grew in the tree. -/
theorem grewBy_fill (place : Place) (before : List Node) :
    GrewBy target relation added (place.fill (group target relation before)).walk
      (place.fill (group target relation (before ++ [added]))).walk :=
  ⟨before, place.mem_walk_fill _, place.mem_walk_fill _⟩

/-- Attaching puts a new group in the place of the target, or makes the new node the last one of the
group that the target is. -/
theorem attach_cases {node : Node} (hnodup : node.ids.Nodup) (htarget : target ∈ node.ids)
    (ids : IdSupply) :
    ((attach target relation added ids node).2 = ids.mint.2 ∧
        ids.mint.1 ∈ (attach target relation added ids node).1.ids) ∨
      GrewBy target relation added node.walk (attach target relation added ids node).1.walk := by
  obtain ⟨place, inner, rfl, _, ⟨children, rfl, hattach⟩ | hattach⟩ :=
    attach_eq_fill relation added hnodup htarget ids
  · rw [hattach]
    exact .inr (grewBy_fill place children)
  · rw [hattach]
    exact .inl ⟨rfl, place.ids_subset_ids_fill _ (by simp)⟩

/-- The last one of the children of a group is taken out, and attached where it was. -/
theorem attach_remove_last {before : List Node} {moving : Node}
    (hnodup : (group target relation (before ++ [moving])).ids.Nodup)
    (hproper : (group target relation (before ++ [moving])).AllProper)
    (hbefore : 2 ≤ before.length) (ids : IdSupply) :
    ∃ rest, (group target relation (before ++ [moving])).remove moving.id = some rest ∧
      rest.AllProper ∧ target ∈ rest.ids ∧
      attach target relation moving ids rest =
        (group target relation (before ++ [moving]), ids) := by
  rw [allProper_group] at hproper
  have hlast : moving.id ∉ (group target relation before).ids := by
    rw [ids_group, List.flatMap_append, List.flatMap_singleton, ← List.cons_append,
      ← ids_group target relation] at hnodup
    exact fun hmem => List.disjoint_of_nodup_append hnodup hmem moving.id_mem_ids
  refine ⟨group target relation before, remove_last hlast, ?_, by simp, ?_⟩
  · rw [allProper_group]
    exact ⟨hbefore, fun child hchild => hproper.2 child (List.mem_append_left _ hchild)⟩
  · rw [attach_group, if_pos rfl, if_pos rfl]

/-- A node that is the last one of three children or more of a group is taken out of a proper node
and attached where it was. -/
theorem attach_remove {root moving : Node} {before : List Node} (hnodup : root.ids.Nodup)
    (hproper : root.AllProper) (hlast : group target relation (before ++ [moving]) ∈ root.walk)
    (hbefore : 2 ≤ before.length) (ids : IdSupply) :
    ∃ rest, root.remove moving.id = some rest ∧ rest.AllProper ∧ target ∈ rest.ids ∧
      attach target relation moving ids rest = (root, ids) := by
  have hlastProper := hproper.of_mem_walk hlast
  obtain ⟨place, rfl⟩ := exists_fill_of_mem_walk hlast
  obtain ⟨rest, hremove, hrest, hstays, hattach⟩ :=
    attach_remove_last (Place.nodup_ids_of_fill place hnodup) hlastProper hbefore ids
  have hmoving : moving.id ∈ (group target relation (before ++ [moving])).ids :=
    id_mem_ids_of_child (mem_walk _) (by simp)
  have hwhole := Place.remove_fill hnodup hmoving hremove
  have hkept : (place.fill rest).ids.Nodup := by
    have hsub := sublist_ids_remove moving.id
      (place.fill (group target relation (before ++ [moving])))
    rw [hwhole] at hsub
    exact hnodup.sublist hsub
  refine ⟨place.fill rest, hwhole, Place.allProper_fill hproper hrest,
    place.ids_subset_ids_fill rest hstays, ?_⟩
  rw [Place.attach_fill hkept hstays, hattach]

end Node

/-! ## Edits of trees -/

namespace Tree

/-- Whether a node is the last one of three children or more of a group with the given relation. -/
def IsLastOf (tree : Tree) (node target : String) (relation : Relation) : Prop :=
  ∃ before moving, tree.find? target = some (.group target relation (before ++ [moving])) ∧
    moving.id = node ∧ 2 ≤ before.length

/-- A node that was moved without effect is the last one of its group. -/
theorem isLastOf_of_move {tree : Tree} {node target : String} {relation : Input}
    {ids left : IdSupply} (hwf : tree.WellFormed)
    (hnew : ∀ id ∈ ids.drawn left, id ∉ tree.nodeIds)
    (h : tree.move node target relation ids = .ok (some tree, left)) :
    ∃ given, Relation.resolve relation = .ok given ∧
      tree.IsLastOf node target (given.getD .and) := by
  rcases move_cases h with ⟨hnone, _⟩ |
    ⟨moving, removed, root, given, new, hmoving, _, _, _, hremove, hroot, hstays, hgiven, hattach,
      hresult⟩
  · contradiction
  · have htree : tree.root = some new := congrArg Tree.root (Option.some.inj hresult)
    rcases wellFormed_remove hwf hremove with ⟨hremoved, _⟩
    rcases tree with ⟨treeId, _⟩
    rcases removed with ⟨removedId, _⟩
    subst hroot htree
    rcases wellFormed_some.mp hremoved with ⟨hdistinct, hproper⟩
    have hcases :=
      @Node.attach_cases target (given.getD .and) moving root hdistinct (hasId_iff.mp hstays) ids
    rw [hattach] at hcases
    rcases hcases with ⟨hdrawn, hmem⟩ | ⟨before, hbefore, hafter⟩
    · -- A new group has a new identifier, which the old tree cannot have.
      have hleft : left = ids.advance 1 := hdrawn.trans ids.mint_eq.2
      subst hleft
      rw [IdSupply.drawn_advance, ids.mint_eq.1] at hnew
      exact absurd hmem (hnew _ (List.mem_singleton_self _))
    · have hfound := find?_of_mem hwf.distinct hafter
      exact ⟨given, hgiven, before, moving, hfound, find?_id hmoving, hproper _ hbefore⟩

/-- A node that is the last one of a group lies in the tree, and the group does not lie in it. -/
theorem mem_walk_of_last {tree : Tree} {target : String} {relation : Relation}
    {before : List Node} {moving : Node} (hwf : tree.WellFormed)
    (hgroup : .group target relation (before ++ [moving]) ∈ tree.walk) :
    moving ∈ tree.walk ∧ target ∉ moving.ids := by
  rcases tree with ⟨treeId, _ | root⟩
  · contradiction
  · have hwalk := Node.sublist_walk hgroup
    constructor
    · exact hwalk.subset (Node.mem_walk_group.mpr (.inr ⟨moving, by simp, moving.mem_walk⟩))
    · have hnodup : (Node.group target relation (before ++ [moving])).ids.Nodup :=
        hwf.distinct.sublist (hwalk.map Node.id)
      rw [Node.ids_group, List.nodup_cons] at hnodup
      exact fun hmem => hnodup.1 (List.mem_flatMap.mpr ⟨moving, by simp, hmem⟩)

/-- Moving the last node of a group to that group has no effect. -/
theorem move_of_isLastOf {tree : Tree} {node target : String} {relation : Input}
    {given : Option Relation} {ids : IdSupply} (hwf : tree.WellFormed)
    (hgiven : Relation.resolve relation = .ok given)
    (hlast : tree.IsLastOf node target (given.getD .and)) :
    tree.move node target relation ids = .ok (some tree, ids) := by
  rcases hlast with ⟨before, moving, hfind, rfl, hbefore⟩
  have hgroup := List.mem_of_find?_eq_some hfind
  rcases mem_walk_of_last hwf hgroup with ⟨hmoving, houtside⟩
  have hfound := find?_of_mem hwf.distinct hmoving
  rcases tree with ⟨treeId, _ | root⟩
  · contradiction
  · rcases wellFormed_some.mp hwf with ⟨hdistinct, hproper⟩
    rcases Node.attach_remove hdistinct hproper hgroup hbefore ids with
      ⟨rest, hremove, hrest, hstays, hattach⟩
    have hdetached : remove ⟨treeId, some root⟩ moving.id = some ⟨treeId, some rest⟩ := by
      rw [remove_eq rfl (by rw [hasId, hfound]; rfl), hremove, Option.bind_some,
        Node.normalize_of_isNormal (Node.isNormal_of_allProper hrest)]
    rw [move_eq hfound (by rw [hasId, hfind]; rfl) houtside hdetached rfl
      (hasId_iff.mpr hstays) hgiven, hattach]

end Tree

/-- Whether an edit asks for what is there already: an update says nothing new of the topmost nodes
of its identifier, or a node is moved to where it stands.  Where a tree is not well-formed, nothing
is said about moves. -/
def Edit.IsIdle (tree : Tree) (ids : IdSupply) : Edit → Prop
  | .modify node relation updates =>
      ∃ root given, tree.root = some root ∧ tree.hasId node = true ∧
        Relation.resolve relation = .ok given ∧
        ∀ inner ∈ root.topmost node, inner.IsUpToDate given (Tree.updateFields updates) ids
  | .move node target relation =>
      tree.WellFormed →
        ∃ given, Relation.resolve relation = .ok given ∧
          tree.IsLastOf node target (given.getD .and)
  | _ => False

namespace Tree

variable {tree : Tree} {ids left : IdSupply}

/-- A tree that starts with a condition has a new identifier. -/
theorem id_mem_drawn_of_start {condition : Input} {new : Tree}
    (h : start condition ids = .ok (new, left)) : new.id ∈ ids.drawn left := by
  rcases Traversal.map_eq_ok_iff.mp h with ⟨⟨c, middle⟩, hread, hnew⟩
  rcases Prod.mk.inj hnew with ⟨rfl, rfl⟩
  rcases Reading.run_treeCondition (Reading.call_eq_ok_iff.mp hread) with ⟨count, rfl, _⟩
  change (ids.advance count).mint.1 ∈ ids.drawn (ids.advance (count + 1))
  rw [IdSupply.drawn_advance, IdSupply.draws_add, (ids.advance count).mint_eq.1]
  exact List.mem_append_right _ (List.mem_singleton_self _)

/-- An update that goes through leaves a tree equal only if it says what is there already. -/
theorem isIdle_of_modify {node : String} {relation updates : Input}
    (h : tree.modify node relation updates ids = .ok (some tree, left)) :
    (Edit.modify node relation updates).IsIdle tree ids := by
  rcases tree with ⟨treeId, _ | root⟩
  · exact absurd (Prod.mk.inj (Except.ok.inj h)).1 (Option.some_ne_none _).symm
  · unfold modify at h
    by_cases hnode : hasId ⟨treeId, some root⟩ node = true
    · simp only [hnode, if_true] at h
      rcases Traversal.bind_eq_ok_iff.mp h with ⟨given, hgiven, hthen⟩
      rcases Traversal.bind_eq_ok_iff.mp hthen with ⟨⟨new, rest⟩, hmodify, hresult⟩
      rcases Node.keepsFrame_modify hmodify with ⟨_, rfl⟩
      rcases Prod.mk.inj (Except.ok.inj hresult) with ⟨htree, rfl⟩
      have hroot : new = root := by
        simpa using congrArg Tree.root (Option.some.inj htree)
      subst hroot
      exact ⟨new, given, rfl, hnode, hgiven, Node.modify_eq_self_iff.mp hmodify⟩
    · simp [hnode] at h

/-- Taking out a node that is there never leaves a tree equal. -/
theorem remove_ne {node : String} : tree.remove node ≠ some tree := by
  intro h
  have hnode : node ∈ tree.nodeIds := by
    by_contra hgone
    rw [← hasId_iff, Bool.not_eq_true] at hgone
    rw [remove_of_not_hasId hgone] at h
    contradiction
  rcases remove_cases h with ⟨root, _, htree⟩
  have hids := sublist_nodeIds_detach tree.id node root
  rw [← htree] at hids
  exact root.not_mem_ids_remove node (hids.subset hnode)

/-- Flipping the relation of a group that is there never leaves a tree equal. -/
theorem toggle_ne {node : String} : tree.toggle node ≠ some tree := by
  intro h
  unfold toggle at h
  split at h
  · next root id relation children hroot hfind =>
      have hid : id = node := find?_id hfind
      subst hid
      have hmem : Node.group id relation children ∈ root.walk := by
        have hwalk := List.mem_of_find?_eq_some hfind
        rwa [walk, hroot] at hwalk
      have hsame := congrArg Tree.root (Option.some.inj h)
      rw [hroot] at hsame
      exact Node.toggle_ne hmem (Option.some.inj hsame)
  · contradiction

/-- Adding a condition never leaves a tree equal. -/
theorem add_ne {parent : Option String} {relation condition : Input} :
    tree.add parent relation condition ids ≠ .ok (some tree, left) := by
  intro h
  rcases add_cases h with ⟨c, read, _, ⟨hroot, hresult, _⟩ | ⟨hnone, _⟩ |
    ⟨root, target, given, new, hroot, htarget, _, hattach, hresult⟩⟩
  · have hsame := congrArg Tree.root (Option.some.inj hresult)
    rw [hroot] at hsame
    contradiction
  · contradiction
  · have hsame := congrArg Tree.root (Option.some.inj hresult)
    rw [hroot] at hsame
    rcases Option.some.inj hsame with rfl
    have hmem : target ∈ root.ids := by
      rwa [hasId_iff, nodeIds, walk, hroot] at htarget
    exact Node.attach_ne hmem _ (congrArg Prod.fst hattach)

/-- An edit that goes through leaves a tree equal only if it asks for what is there already, as long
as no identifier is drawn that occurs already. -/
theorem isIdle_of_perform {edit : Edit}
    (hnew : ∀ id ∈ ids.drawn left, id ∉ tree.id :: tree.nodeIds)
    (h : tree.perform ids edit = .ok (some tree, left)) : edit.IsIdle tree ids := by
  cases edit with
  | start condition =>
      rcases Traversal.map_eq_ok_iff.mp h with ⟨⟨new, rest⟩, hstart, hresult⟩
      rcases Prod.mk.inj hresult with ⟨hsame, rfl⟩
      rcases Option.some.inj hsame with rfl
      exact absurd List.mem_cons_self (hnew _ (id_mem_drawn_of_start hstart))
  | add parent relation condition => exact absurd h add_ne
  | modify node relation updates => exact isIdle_of_modify h
  | remove node => exact absurd (Prod.mk.inj (Except.ok.inj h)).1 remove_ne
  | toggle node => exact absurd (Prod.mk.inj (Except.ok.inj h)).1 toggle_ne
  | move node target relation =>
      exact fun hwf => isLastOf_of_move hwf
        (fun id hid hmem => hnew id hid (List.mem_cons_of_mem _ hmem)) h
  | reset =>
      rcases Prod.mk.inj (Except.ok.inj h) with ⟨hsame, rfl⟩
      have hid : ids.mint.1 = tree.id := congrArg Tree.id (Option.some.inj hsame)
      have hdrawn : ids.mint.1 ∈ ids.drawn ids.mint.2 := by
        rw [ids.mint_eq.2, IdSupply.drawn_advance, ids.mint_eq.1]
        exact List.mem_singleton_self _
      exact absurd (hid ▸ List.mem_cons_self) (hnew _ hdrawn)

/-- An edit that asks for what is there already goes through, and leaves a well-formed tree
equal. -/
theorem perform_of_isIdle {edit : Edit} (hwf : tree.WellFormed) (h : edit.IsIdle tree ids) :
    tree.perform ids edit = .ok (some tree, ids) := by
  cases edit with
  | modify node relation updates =>
      rcases h with ⟨root, given, hroot, hnode, hgiven, hall⟩
      rcases tree with ⟨treeId, _⟩
      subst hroot
      have hmodify := Node.modify_eq_self_iff.mpr hall
      simp only [perform, modify, hnode, if_true, hgiven]
      exact Traversal.bind_eq_ok_iff.mpr ⟨given, rfl,
        Traversal.bind_eq_ok_iff.mpr ⟨_, hmodify, rfl⟩⟩
  | move node target relation =>
      rcases h hwf with ⟨given, hgiven, hlast⟩
      exact move_of_isLastOf hwf hgiven hlast
  | start _ | add _ _ _ | remove _ | toggle _ | reset => exact h.elim

end Tree

end FilterQuery
