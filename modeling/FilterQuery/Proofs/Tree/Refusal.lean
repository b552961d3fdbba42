import FilterQuery.Proofs.Tree.Move

/-!
# Refused moves

A move leaves a tree as it is where the node or its target is missing, where the target lies inside
the node, and where the target goes when the node is taken out.  In a tree in normal form there is
one group only that goes with a node, namely its parent, when the node has a single sibling: this
takes the place of the parent, and every other group keeps as many children as it had.

Main results:

- `Node.detach_eq_none_iff`: of a node in normal form nothing is left only if it is taken out
  itself.
- `Node.two_le_length_detach_iff`: when two of the children of a group are left.
- `Node.mem_ids_detach_iff`: when the target is left in the tree.
- `Tree.canMove_iff`: a node can be moved exactly when the move is not refused.
- `Tree.move_refused_iff`: a move leaves the tree as it is exactly when it is refused.
-/

namespace FilterQuery

namespace Node

/-! ## What goes with a node -/

variable {node inner moving : Node} {gone : String}

/-- A node inside a normal one is normal. -/
theorem isNormal_of_mem_walk (h : node.isNormal = true) (hinner : inner ∈ node.walk) :
    inner.isNormal = true := by
  induction node with
  | leaf l =>
      rw [walk, List.mem_singleton] at hinner
      rwa [hinner]
  | group id relation children ih =>
      rcases mem_walk_group.mp hinner with rfl | ⟨child, hchild, hmem⟩
      · exact h
      · rw [isNormal_group] at h
        exact ih child hchild (h.2 child hchild) hmem

/-- Children of a group without repeated identifiers have different ones. -/
theorem nodup_map_id {id : String} {relation : Relation} {children : List Node}
    (h : (group id relation children).ids.Nodup) : (children.map Node.id).Nodup := by
  have hsub : (children.map Node.id).Sublist (children.flatMap ids) := by
    rw [List.map_eq_flatMap]
    apply List.Sublist.flatMap_right
    intro child _
    exact List.singleton_sublist.mpr child.id_mem_ids
  rw [ids_group, List.nodup_cons] at h
  exact h.2.sublist hsub

/-- As many children are lost when nodes are taken out as have the identifier. -/
theorem length_detach_add_count {children : List Node}
    (h : ∀ child ∈ children, child.detach gone = none ↔ child.id = gone) :
    (children.filterMap (detach gone)).length + (children.map id).count gone =
      children.length := by
  induction children with
  | nil => rfl
  | cons child rest ih =>
      rw [List.forall_mem_cons] at h
      have hrest := ih h.2
      rw [List.map_cons, List.length_cons]
      by_cases hid : child.id = gone
      · rw [List.filterMap_cons_none (h.1.mpr hid), hid, List.count_cons_self]
        omega
      · obtain ⟨kept, hkept⟩ := Option.ne_none_iff_exists'.mp (mt h.1.mp hid)
        rw [List.filterMap_cons_some hkept, List.length_cons, List.count_cons_of_ne hid]
        omega

/-- Of a normal node something is left unless it is taken out itself. -/
theorem detach_eq_none_iff (hnormal : node.isNormal = true) (hdistinct : node.ids.Nodup) :
    node.detach gone = none ↔ node.id = gone := by
  refine ⟨?_, detach_of_id_eq⟩
  induction node with
  | leaf l =>
      intro hnone
      by_contra hid
      rw [detach_leaf hid] at hnone
      contradiction
  | group id relation children ih =>
      intro hnone
      by_contra hid
      have hgroup : id ≠ gone := hid
      rw [isNormal_group] at hnormal
      have hchildren : ∀ child ∈ children, child.detach gone = none ↔ child.id = gone := by
        intro child hchild
        refine ⟨?_, detach_of_id_eq⟩
        exact ih child hchild (hnormal.2 child hchild) (nodup_ids_of_mem hdistinct hchild)
      -- Of two children at least, only one has the identifier, so that another one is left.
      have hcount := length_detach_add_count hchildren
      have hone := List.nodup_iff_count_le_one.mp (nodup_map_id hdistinct) gone
      have hlength := hnormal.1
      rw [detach_group hgroup, regroup_eq_none_iff] at hnone
      rw [hnone, List.length_nil] at hcount
      omega

/-- Two children of a normal group are left unless it has two and one of them is taken out. -/
theorem two_le_length_detach_iff {id : String} {relation : Relation} {children : List Node}
    (hnormal : (group id relation children).isNormal = true)
    (hdistinct : (group id relation children).ids.Nodup) :
    2 ≤ (children.filterMap (detach gone)).length ↔
      ¬ (children.length = 2 ∧ gone ∈ children.map Node.id) := by
  rw [isNormal_group] at hnormal
  have hchildren : ∀ child ∈ children, child.detach gone = none ↔ child.id = gone :=
    fun child hchild =>
      detach_eq_none_iff (hnormal.2 child hchild) (nodup_ids_of_mem hdistinct hchild)
  have hcount := length_detach_add_count hchildren
  have hone := List.nodup_iff_count_le_one.mp (nodup_map_id hdistinct) gone
  have hlength := hnormal.1
  rw [← List.count_pos_iff]
  omega

/-- The identifier of a node is left of it unless it is a group of two that loses one of them. -/
theorem id_mem_ids_detach_iff (hnormal : node.isNormal = true) (hdistinct : node.ids.Nodup)
    (hid : node.id ≠ gone) :
    node.id ∈ (node.detach gone).elim [] ids ↔
      ¬ ∃ relation children, node = group node.id relation children ∧ children.length = 2 ∧
        gone ∈ children.map Node.id := by
  cases node with
  | leaf l =>
      rw [detach_leaf hid, Option.elim_some]
      constructor
      · rintro _ ⟨relation, children, hgroup, _⟩
        contradiction
      · intro _
        exact id_mem_ids _
  | group id relation children =>
      have hself : (group id relation children).id = id := rfl
      rw [hself] at hid ⊢
      rw [mem_ids_detach_group_iff hdistinct hid, two_le_length_detach_iff hnormal hdistinct,
        not_iff_not]
      constructor
      · intro h
        exact ⟨relation, children, rfl, h⟩
      · rintro ⟨_, _, hgroup, h⟩
        obtain ⟨_, _, rfl⟩ := Node.group.inj hgroup
        exact h

/-- When a node is taken out of a normal tree, every identifier outside of it is left, except that
of a group of two that loses one of them. -/
theorem mem_ids_detach_iff {target : String} (hnormal : node.isNormal = true)
    (hdistinct : node.ids.Nodup) (hmoving : moving ∈ node.walk) (htarget : target ∈ node.ids)
    (houtside : target ∉ moving.ids) :
    target ∈ (node.detach moving.id).elim [] ids ↔
      ¬ ∃ relation children, group target relation children ∈ node.walk ∧ children.length = 2 ∧
        moving.id ∈ children.map Node.id := by
  rcases List.mem_map.mp htarget with ⟨inner, hinner, rfl⟩
  have hid : inner.id ≠ moving.id := fun heq => houtside (heq ▸ moving.id_mem_ids)
  have hinnerNormal := isNormal_of_mem_walk hnormal hinner
  rcases exists_fill_of_mem_walk hinner with ⟨place, rfl⟩
  rw [mem_ids_detach_fill_iff hdistinct (.inl hmoving) houtside,
    id_mem_ids_detach_iff hinnerNormal (place.nodup_ids_of_fill hdistinct) hid, not_iff_not]
  constructor
  · rintro ⟨relation, children, hgroup, h⟩
    exact ⟨relation, children, hgroup ▸ hinner, h⟩
  · rintro ⟨relation, children, hgroup, h⟩
    exact ⟨relation, children, List.inj_on_of_nodup_map hdistinct hinner hgroup rfl, h⟩

end Node

namespace Tree

/-! ## Refused moves -/

/-- When a move is refused: the node or the target is missing, the target is the node or lies below
it, or it is the parent of the node and has no other child but one. -/
inductive RefusesMove (tree : Tree) (node target : String) : Prop where
  | noNode (h : node ∉ tree.nodeIds)
  | noTarget (h : target ∉ tree.nodeIds)
  | inside (moving : Node) (hmoving : moving ∈ tree.walk) (hid : moving.id = node)
      (htarget : target ∈ moving.ids)
  | parentOfTwo (relation : Relation) (children : List Node)
      (hparent : .group target relation children ∈ tree.walk) (hlength : children.length = 2)
      (hchild : node ∈ children.map Node.id)

variable {tree : Tree} {node target : String} {relation : Input} {given : Option Relation}

/-- In a tree in normal form without repeated identifiers, a node can be moved exactly when the move
is not refused. -/
theorem canMove_iff (hdistinct : tree.nodeIds.Nodup)
    (hnormal : ∀ root ∈ tree.root, root.isNormal = true) :
    tree.CanMove node target ↔ ¬ tree.RefusesMove node target := by
  constructor
  · rintro ⟨moving, removed, hfound, htarget, houtside, hremove, hstays⟩ h
    have hmoving := List.mem_of_find?_eq_some hfound
    obtain rfl := find?_id hfound
    cases h with
    | noNode h => exact h (List.mem_map.mpr ⟨moving, hmoving, rfl⟩)
    | noTarget h => exact h htarget
    | inside other hother hid hinside =>
        rw [List.inj_on_of_nodup_map hdistinct hother hmoving hid] at hinside
        exact houtside hinside
    | parentOfTwo relation children hparent hlength hchild =>
        rcases tree with ⟨treeId, _⟩
        obtain ⟨root, rfl, rfl⟩ := remove_cases hremove
        have hiff := Node.mem_ids_detach_iff (hnormal root rfl) hdistinct hmoving htarget houtside
        rw [nodeIds_eq_elim] at hstays
        exact hiff.mp hstays ⟨relation, children, hparent, hlength, hchild⟩
  · intro h
    have hnode : node ∈ tree.nodeIds := by_contra fun hmem => h (.noNode hmem)
    have htarget : target ∈ tree.nodeIds := by_contra fun hmem => h (.noTarget hmem)
    rcases List.mem_map.mp hnode with ⟨moving, hmoving, rfl⟩
    have houtside : target ∉ moving.ids := fun hmem => h (.inside moving hmoving rfl hmem)
    have hfound := find?_of_mem hdistinct hmoving
    rcases tree with ⟨treeId, _ | root⟩
    · exact absurd htarget List.not_mem_nil
    · refine ⟨moving, _, hfound, htarget, houtside, remove_eq rfl (hasId_iff.mpr hnode), ?_⟩
      have hiff := Node.mem_ids_detach_iff (hnormal root rfl) hdistinct hmoving htarget houtside
      rw [nodeIds_eq_elim]
      apply hiff.mpr
      rintro ⟨relation, children, hparent, hlength, hchild⟩
      exact h (.parentOfTwo relation children hparent hlength hchild)

/-- In a tree in normal form without repeated identifiers, a move by a valid relation leaves the
tree as it is exactly when it is refused; otherwise it goes through. -/
theorem move_refused_iff (hdistinct : tree.nodeIds.Nodup)
    (hnormal : ∀ root ∈ tree.root, root.isNormal = true) (node target : String)
    (hrelation : Relation.resolve relation = .ok given) (ids : IdSupply) :
    (tree.move node target relation ids = .ok (none, ids) ↔ tree.RefusesMove node target) ∧
      (¬ tree.RefusesMove node target →
        ∃ new left, tree.move node target relation ids = .ok (some new, left) ∧
          tree.Relocates node target (given.getD .and) ids new left) := by
  have hcan : tree.CanMove node target ↔ ¬ tree.RefusesMove node target :=
    canMove_iff hdistinct hnormal
  refine ⟨⟨?_, ?_⟩, ?_⟩
  · intro hnone
    by_contra h
    obtain ⟨new, left, hmove, _⟩ := move_of_canMove hrelation (hcan.mpr h) ids
    rw [hnone] at hmove
    exact Option.some_ne_none new (Prod.mk.inj (Except.ok.inj hmove)).1.symm
  · intro h
    exact move_of_not_canMove hrelation (fun hmoves => hcan.mp hmoves h) ids
  · intro h
    exact move_of_canMove hrelation (hcan.mpr h) ids

/-- In a group of two inside another group of two, a condition is not moved to its parent, which
goes with it, but it is moved to the sibling of its parent. -/
theorem move_refused_to_parent :
    let host : Node := .leaf (.plain { id := "a", field := "host", operator := some .present })
    let user : Node := .leaf (.plain { id := "b", field := "user", operator := some .absent })
    let size : Node := .leaf (.plain { id := "c", field := "size" })
    let tree : Tree := { id := "t", root := some (.group "g" .and
      [host, .group "h" .or [user, size]]) }
    let ids : IdSupply := ⟨"n", 0⟩
    tree.move "b" "h" (.text "and") ids = .ok (none, ids) ∧ tree.RefusesMove "b" "h" ∧
      ¬ tree.RefusesMove "b" "a" ∧
      ∃ new left, tree.move "b" "a" (.text "and") ids = .ok (some new, left) ∧
        tree.Relocates "b" "a" .and ids new left := by
  intro host user size tree ids
  have hdistinct : tree.nodeIds.Nodup := by decide +kernel
  have hnormal : ∀ root ∈ tree.root, root.isNormal = true := by decide +kernel
  have hrelation : Relation.resolve (.text "and") = .ok (some .and) := rfl
  have hrefused : tree.move "b" "h" (.text "and") ids = .ok (none, ids) := rfl
  obtain ⟨hparent, _⟩ := move_refused_iff hdistinct hnormal "b" "h" hrelation ids
  obtain ⟨hother, hthrough⟩ := move_refused_iff hdistinct hnormal "b" "a" hrelation ids
  have hallowed : ¬ tree.RefusesMove "b" "a" := by
    intro h
    have hnone : (tree.move "b" "a" (.text "and") ids).map (fun result => result.1.isNone) =
        .ok false := rfl
    rw [hother.mpr h] at hnone
    exact absurd (Except.ok.inj hnone) (by decide)
  exact ⟨hrefused, hparent.mp hrefused, hallowed, hthrough hallowed⟩

end Tree

end FilterQuery
