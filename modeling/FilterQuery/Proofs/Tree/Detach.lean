import FilterQuery.Proofs.Tree.Place
import FilterQuery.Proofs.Tree.Restriction
import Mathlib.Data.List.Pairwise

/-!
# Detached nodes

To move a node, it is first taken out of its tree, and what is left is brought into normal form.
This changes the groups around every other node: siblings go, and a group with an only child gives
way to it.  A node that is still there stands among the same leaves as before, without those of the
node that was taken out.

Main results:

- `Place.ahead_append`, `Place.behind_append`: what is visited around a place inside a place.
- `leaves_detach`: the leaves of what is left when a node is taken out.
- `exists_detach_fill`: the place of what is left of another node, and the leaves around it.
- `mem_ids_detach_group_iff`: when a group is left as a group.
- `mem_ids_detach_fill_iff`: when the identifier of another node is left.
- `perm_leaves_outside`: the leaves of a node inside a tree and the other ones are all its leaves.
-/

open scoped List

namespace FilterQuery

/-- Whether a leaf is none of those of a node, by its identifier. -/
def Leaf.isOutside (node : Node) (l : Leaf) : Bool :=
  l.condition.id ∉ node.ids

namespace Node

/-! ## Places inside places -/

namespace Place

/-- A place inside a place is filled from the inside out. -/
theorem fill_append (outer inside : Place) (node : Node) :
    (outer ++ inside).fill node = outer.fill (inside.fill node) :=
  List.foldr_append

/-- What is visited ahead of a place inside a place. -/
theorem ahead_append (outer inside : Place) :
    (outer ++ inside).ahead = outer.ahead ++ inside.ahead := by
  induction outer with
  | nil => rfl
  | cons frame rest ih => rw [List.cons_append, ahead, ahead, ih, List.append_assoc]

theorem behind_append (outer inside : Place) :
    (outer ++ inside).behind = inside.behind ++ outer.behind := by
  induction outer with
  | nil => simp [behind]
  | cons frame rest ih => rw [List.cons_append, behind, behind, ih, List.append_assoc]

end Place

/-- Children that are grouped again give a place to each of them, among the leaves of the others. -/
theorem exists_regroup_fill (id : String) (relation : Relation) (before after : List Node)
    (node : Node) :
    ∃ place : Place, regroup id relation (before ++ node :: after) = some (place.fill node) ∧
      place.ahead.filterMap leaf? = before.flatMap leaves ∧
      place.behind.filterMap leaf? = after.flatMap leaves := by
  by_cases hlength : 2 ≤ (before ++ node :: after).length
  · refine ⟨[⟨id, relation, before, after⟩], regroup_of_two_le hlength, ?_, ?_⟩
    · rw [Place.leaves_ahead_cons]
      simp [Place.ahead]
    · rw [Place.leaves_behind_cons]
      simp [Place.behind]
  · have hnil : before = [] ∧ after = [] := by
      rw [List.length_append, List.length_cons] at hlength
      constructor <;> apply List.eq_nil_of_length_eq_zero <;> omega
    rcases hnil with ⟨rfl, rfl⟩
    exact ⟨[], rfl, rfl, rfl⟩

/-! ## Taking out and normalizing -/

/-- What is left of a node in normal form when the nodes of an identifier are taken out. -/
def detach (target : String) (node : Node) : Option Node :=
  (node.remove target).bind normalize

variable {target : String} {node moving : Node}

theorem detach_of_id_eq (h : node.id = target) : node.detach target = none := by
  rw [← h, detach, remove_id, Option.bind_none]

theorem detach_leaf {l : Leaf} (h : l.condition.id ≠ target) :
    (leaf l).detach target = some (leaf l) := by
  rw [detach, remove, if_neg h, Option.bind_some, normalize_leaf]

/-- In a group of another identifier, what is left of the children is grouped again. -/
theorem detach_group {id : String} (h : id ≠ target) (relation : Relation)
    (children : List Node) :
    (group id relation children).detach target =
      regroup id relation (children.filterMap (detach target)) := by
  rw [detach, remove_group, if_neg h, Option.bind_some, normalize_group,
    List.filterMap_filterMap]
  rfl

/-- No identifier comes in when nodes are taken out and the rest is brought into normal form. -/
theorem sublist_ids_detach (target : String) (node : Node) :
    ((node.detach target).elim [] ids).Sublist node.ids := by
  rw [detach]
  exact (sublist_ids_bind_normalize _).trans (node.sublist_ids_remove target)

/-! ## Nodes apart -/

/-- Whether a node has another one below it or shares no identifier with it. -/
def HoldsOrLacks (node moving : Node) : Prop :=
  moving ∈ node.walk ∨ ∀ id ∈ node.ids, id ∉ moving.ids

/-- A node that holds another one of its own identifier, or lacks it, is that node. -/
theorem HoldsOrLacks.eq_of_id_eq (h : node.HoldsOrLacks moving) (hdistinct : node.ids.Nodup)
    (hid : node.id = moving.id) : node = moving := by
  rcases h with hmem | hlacks
  · exact List.inj_on_of_nodup_map hdistinct node.mem_walk hmem hid
  · exact absurd moving.id_mem_ids (hid ▸ hlacks node.id node.id_mem_ids)

/-- A child of a group without repeated identifiers has none either. -/
theorem nodup_ids_of_mem {id : String} {relation : Relation} {children : List Node} {child : Node}
    (h : (group id relation children).ids.Nodup) (hchild : child ∈ children) :
    child.ids.Nodup := by
  rw [ids_group, List.nodup_cons, List.nodup_flatMap] at h
  exact h.2.1 child hchild

/-- Children of a group without repeated identifiers share none. -/
theorem disjoint_ids_of_mem {id : String} {relation : Relation} {children : List Node}
    {first second : Node} (h : (group id relation children).ids.Nodup) (hfirst : first ∈ children)
    (hsecond : second ∈ children) (hne : first ≠ second) : first.ids.Disjoint second.ids := by
  have hsymm : Std.Symm (Function.onFun List.Disjoint ids) :=
    ⟨fun _ _ hapart _ hsecond hfirst => hapart hfirst hsecond⟩
  rw [ids_group, List.nodup_cons, List.nodup_flatMap] at h
  exact h.2.2.forall hfirst hsecond hne

/-- Each child of a group holds a node or lacks it, if the group does and is not the node itself. -/
theorem HoldsOrLacks.of_mem {id : String} {relation : Relation} {children : List Node}
    {child : Node} (h : (group id relation children).HoldsOrLacks moving)
    (hdistinct : (group id relation children).ids.Nodup) (hid : id ≠ moving.id)
    (hchild : child ∈ children) : child.HoldsOrLacks moving := by
  rcases h with hmem | hlacks
  · rcases mem_walk_group.mp hmem with rfl | ⟨holder, hholder, hinner⟩
    · exact absurd rfl hid
    · by_cases hsame : child = holder
      · exact .inl (hsame ▸ hinner)
      · -- The node lies in another child, which shares no identifier with this one.
        have hmoving : moving.ids ⊆ holder.ids := ((sublist_walk hinner).map Node.id).subset
        right
        intro other hother hmem
        exact disjoint_ids_of_mem hdistinct hchild hholder hsame hother (hmoving hmem)
  · right
    intro other hother hmem
    exact (not_mem_ids_group.mp fun hgroup => hlacks other hgroup hmem).2 child hchild hother

theorem id_mem_ids_of_mem_leaves {l : Leaf} (h : l ∈ node.leaves) :
    l.condition.id ∈ node.ids :=
  List.mem_map.mpr ⟨leaf l, mem_walk_of_mem_leaves h, rfl⟩

/-- A node has no leaf but its own ones. -/
theorem filter_isOutside_self (node : Node) : node.leaves.filter (Leaf.isOutside node) = [] := by
  rw [List.filter_eq_nil_iff]
  intro l hl
  simpa [Leaf.isOutside] using id_mem_ids_of_mem_leaves hl

/-- What is left when a node is taken out has the leaves that are none of those of the node. -/
theorem leaves_detach (hdistinct : node.ids.Nodup) (h : node.HoldsOrLacks moving) :
    (node.detach moving.id).elim [] leaves = node.leaves.filter (Leaf.isOutside moving) := by
  induction node with
  | leaf l =>
      by_cases hid : l.condition.id = moving.id
      · obtain rfl := h.eq_of_id_eq hdistinct hid
        rw [detach_of_id_eq rfl, filter_isOutside_self, Option.elim_none]
      · have houtside : Leaf.isOutside moving l = true := by
          rcases h with hmem | hlacks
          · rw [walk, List.mem_singleton] at hmem
            exact absurd (congrArg Node.id hmem).symm hid
          · simpa [Leaf.isOutside] using hlacks
        rw [detach_leaf hid, Option.elim_some, leaves_leaf, List.filter_singleton, houtside]
        rfl
  | group id relation children ih =>
      by_cases hid : id = moving.id
      · obtain rfl := h.eq_of_id_eq hdistinct hid
        rw [detach_of_id_eq rfl, filter_isOutside_self, Option.elim_none]
      · have hchildren : ∀ child ∈ children, (child.detach moving.id).elim [] leaves =
            child.leaves.filter (Leaf.isOutside moving) := by
          intro child hchild
          exact ih child hchild (nodup_ids_of_mem hdistinct hchild) (h.of_mem hdistinct hid hchild)
        rw [detach_group hid, leaves_regroup, flatMap_filterMap, List.flatMap_congr hchildren,
          leaves_group, List.filter_flatMap]

/-! ## Places of what is left -/

/-- Children of a group keep their leaves, without those of the node that is taken out. -/
theorem flatMap_leaves_detach {id : String} {relation : Relation} {children siblings : List Node}
    (h : (group id relation children).HoldsOrLacks moving)
    (hdistinct : (group id relation children).ids.Nodup) (hid : id ≠ moving.id)
    (hsiblings : siblings ⊆ children) :
    (siblings.filterMap (detach moving.id)).flatMap leaves =
      (siblings.flatMap leaves).filter (Leaf.isOutside moving) := by
  rw [flatMap_filterMap, List.filter_flatMap]
  apply List.flatMap_congr
  intro sibling hsibling
  have hchild := hsiblings hsibling
  exact leaves_detach (nodup_ids_of_mem hdistinct hchild) (h.of_mem hdistinct hid hchild)

/-- What is left of the node in a place fills what is left of the place.  It has the leaves that it
had, and stands among the leaves among which it stood, without those of the node that was taken
out. -/
theorem exists_detach_fill {place : Place} {inner kept : Node}
    (hdistinct : (place.fill inner).ids.Nodup) (h : (place.fill inner).HoldsOrLacks moving)
    (houtside : inner.id ∉ moving.ids) (hkept : inner.detach moving.id = some kept) :
    ∃ left : Place, (place.fill inner).detach moving.id = some (left.fill kept) ∧
      kept.leaves = inner.leaves.filter (Leaf.isOutside moving) ∧
      left.ahead.filterMap leaf? =
        (place.ahead.filterMap leaf?).filter (Leaf.isOutside moving) ∧
      left.behind.filterMap leaf? =
        (place.behind.filterMap leaf?).filter (Leaf.isOutside moving) := by
  induction place with
  | nil =>
      have hleaves := leaves_detach hdistinct h
      rw [Place.fill_nil, hkept, Option.elim_some] at hleaves
      exact ⟨[], hkept, hleaves, rfl, rfl⟩
  | cons frame inside ih =>
      -- The frame is not taken out, as then the node in the place would go with it.
      have hid : frame.id ≠ moving.id := by
        intro hid
        have hself : Place.fill (frame :: inside) inner = moving := h.eq_of_id_eq hdistinct hid
        exact houtside (hself ▸ Place.ids_subset_ids_fill _ _ inner.id_mem_ids)
      have hinside : (Place.fill inside inner).HoldsOrLacks moving :=
        h.of_mem hdistinct hid (List.mem_append_right _ List.mem_cons_self)
      obtain ⟨left, hleft, hleaves, hahead, hbehind⟩ :=
        ih (Place.nodup_ids_of_fill [frame] hdistinct) hinside
      obtain ⟨outer, houter, hbefore, hafter⟩ := exists_regroup_fill frame.id frame.relation
        (frame.before.filterMap (detach moving.id)) (frame.after.filterMap (detach moving.id))
        (left.fill kept)
      -- What is left of the frame is around what is left inside: the frame itself, or nothing.
      refine ⟨outer ++ left, ?_, hleaves, ?_, ?_⟩
      · rw [Place.fill_cons, Frame.fill, detach_group hid, List.filterMap_append,
          List.filterMap_cons_some hleft, houter, Place.fill_append]
      · have hsub : frame.before ⊆ frame.before ++ Place.fill inside inner :: frame.after :=
          List.subset_append_left _ _
        rw [Place.ahead_append, List.filterMap_append, hbefore, hahead,
          flatMap_leaves_detach h hdistinct hid hsub, Place.leaves_ahead_cons, List.filter_append]
      · have hsub : frame.after ⊆ frame.before ++ Place.fill inside inner :: frame.after :=
          List.subset_append_of_subset_right _ (List.subset_cons_self _ _)
        rw [Place.behind_append, List.filterMap_append, hafter, hbehind,
          flatMap_leaves_detach h hdistinct hid hsub, Place.leaves_behind_cons, List.filter_append]

/-- An identifier that occurs around a place only goes with the node in the place. -/
theorem not_mem_ids_detach_fill {place : Place} {inner : Node} {gone : String}
    (hlacks : ∀ frame ∈ place, frame.Lacks target)
    (h : target ∉ (inner.detach gone).elim [] ids) :
    target ∉ ((place.fill inner).detach gone).elim [] ids := by
  induction place with
  | nil => exact h
  | cons frame inside ih =>
      rw [List.forall_mem_cons] at hlacks
      by_cases hid : frame.id = gone
      · have hnone : (Place.fill (frame :: inside) inner).detach gone = none :=
          detach_of_id_eq hid
        rw [hnone]
        exact List.not_mem_nil
      · rw [Place.fill_cons, Frame.fill, detach_group hid]
        intro hmem
        rcases List.mem_cons.mp ((sublist_ids_regroup _ _ _).subset hmem) with hframe | hbelow
        · exact hlacks.1.id_ne hframe.symm
        · rw [flatMap_filterMap] at hbelow
          rcases List.mem_flatMap.mp hbelow with ⟨child, hchild, hinner⟩
          have hids : target ∈ child.ids := (sublist_ids_detach gone child).subset hinner
          rcases List.mem_append.mp hchild with hbefore | hrest
          · exact hlacks.1.before child hbefore hids
          · rcases List.mem_cons.mp hrest with rfl | hafter
            · exact ih hlacks.2 hinner
            · exact hlacks.1.after child hafter hids

/-- A group is left as a group exactly when something is left of at least two of its children. -/
theorem mem_ids_detach_group_iff {id gone : String} {relation : Relation} {children : List Node}
    (hdistinct : (group id relation children).ids.Nodup) (hid : id ≠ gone) :
    id ∈ ((group id relation children).detach gone).elim [] ids ↔
      2 ≤ (children.filterMap (detach gone)).length := by
  rw [detach_group hid]
  constructor
  · -- The children have other identifiers, so the group has not given way to one of them.
    have hchildren : id ∉ (children.filterMap (detach gone)).flatMap ids := by
      have hsub := sublist_flatMap_filterMap fun child (_ : child ∈ children) =>
        sublist_ids_detach gone child
      rw [ids_group, List.nodup_cons] at hdistinct
      exact fun hmem => hdistinct.1 (hsub.subset hmem)
    intro hmem
    cases hkept : regroup id relation (children.filterMap (detach gone)) with
    | none =>
        rw [hkept] at hmem
        contradiction
    | some kept =>
        rw [hkept, Option.elim_some] at hmem
        rcases regroup_eq_some_iff.mp hkept with hsingle | ⟨hlength, _⟩
        · rw [hsingle, List.flatMap_singleton] at hchildren
          exact absurd hmem hchildren
        · exact hlength
  · intro hlength
    rw [regroup_of_two_le hlength, Option.elim_some, ids_group]
    exact List.mem_cons_self

/-- Where the identifier of a node is left of it, what is left has this identifier itself. -/
theorem exists_detach_of_mem {gone : String} (hdistinct : node.ids.Nodup)
    (h : node.id ∈ (node.detach gone).elim [] ids) :
    ∃ kept, node.detach gone = some kept ∧ kept.id = node.id := by
  have hid : node.id ≠ gone := by
    intro hid
    rw [detach_of_id_eq hid] at h
    contradiction
  cases node with
  | leaf l => exact ⟨leaf l, detach_leaf hid, rfl⟩
  | group id relation children =>
      have hlength := (mem_ids_detach_group_iff hdistinct hid).mp h
      exact ⟨_, (detach_group hid relation children).trans (regroup_of_two_le hlength), rfl⟩

/-- The identifier of the node in a place is left of the tree exactly when it is left of the
node. -/
theorem mem_ids_detach_fill_iff {place : Place} {inner : Node}
    (hdistinct : (place.fill inner).ids.Nodup) (h : (place.fill inner).HoldsOrLacks moving)
    (houtside : inner.id ∉ moving.ids) :
    inner.id ∈ ((place.fill inner).detach moving.id).elim [] ids ↔
      inner.id ∈ (inner.detach moving.id).elim [] ids := by
  constructor
  · have hlacks := Place.lacks_of_mem hdistinct inner.id_mem_ids
    exact not_imp_not.mp (not_mem_ids_detach_fill hlacks)
  · intro hmem
    rcases exists_detach_of_mem (Place.nodup_ids_of_fill place hdistinct) hmem with
      ⟨kept, hkept, hid⟩
    rcases exists_detach_fill hdistinct h houtside hkept with ⟨left, hleft, _⟩
    rw [hleft, Option.elim_some, ← hid]
    exact Place.ids_subset_ids_fill left kept kept.id_mem_ids

/-! ## Leaves of a node and the other ones -/

/-- A leaf is none of those of a node, if its identifier does not occur there. -/
theorem filter_isOutside_eq_self {visited : List Node}
    (h : ∀ other ∈ visited.map id, other ∉ moving.ids) :
    (visited.filterMap leaf?).filter (Leaf.isOutside moving) = visited.filterMap leaf? := by
  rw [List.filter_eq_self]
  intro l hl
  rcases List.mem_filterMap.mp hl with ⟨inner, hinner, hleaf⟩
  cases inner with
  | leaf l' =>
      rcases Option.some.inj hleaf with rfl
      have hid : l'.condition.id ∉ moving.ids := h _ (List.mem_map.mpr ⟨_, hinner, rfl⟩)
      simpa [Leaf.isOutside] using hid
  | group id relation children => contradiction

/-- The leaves of a node inside a tree and the other leaves of the tree are all its leaves. -/
theorem perm_leaves_outside (hdistinct : node.ids.Nodup) (h : moving ∈ node.walk) :
    node.leaves.filter (Leaf.isOutside moving) ++ moving.leaves ~ node.leaves := by
  obtain ⟨place, rfl⟩ := exists_fill_of_mem_walk h
  rw [Place.ids_fill] at hdistinct
  have hahead : ∀ id ∈ place.ahead.map Node.id, id ∉ moving.ids :=
    fun id hid hmem => List.disjoint_of_nodup_append hdistinct.of_append_left hid hmem
  have hbehind : ∀ id ∈ place.behind.map Node.id, id ∉ moving.ids :=
    fun id hid hmem =>
      List.disjoint_of_nodup_append hdistinct (List.mem_append_right _ hmem) hid
  rw [Place.leaves_fill, List.filter_append, List.filter_append, filter_isOutside_self,
    filter_isOutside_eq_self hahead, filter_isOutside_eq_self hbehind, List.append_nil,
    List.append_assoc, List.append_assoc]
  exact List.perm_append_comm.append_left _

end Node

end FilterQuery
