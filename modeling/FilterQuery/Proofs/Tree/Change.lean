import FilterQuery.Proofs.Tree.Perform
import FilterQuery.Proofs.UpdatedLeaf

/-!
# Changes at an identifier

Updating and toggling go down to the nodes of an identifier and change those by themselves: a leaf
is read anew, which may fail, and a group takes another relation.  Both are the same walk with
another change at its end, so what such an edit leaves alone and how two of them come together is
shown of the walk once.

Two changes at different identifiers do not see each other, also where one of the nodes lies inside
the other: a group hands its children on as they are, and a leaf keeps its identifier.

Main results:

- `Node.modify_eq_change`, `Node.change_flipping`: updating and toggling as changes.
- `Node.Place.change_fill`: a change of the node in a place is a change of the tree.
- `Node.passes_change`: a change does the same before and after one at another identifier.
- `Node.isUpdate_of_change`, `Node.isToggle_toggle`: what becomes of the node by itself.
-/

namespace FilterQuery

/-- What is done to the nodes of an identifier: a leaf becomes another one, which may fail, and a
group takes another relation. -/
structure PointChange where
  leaf : Leaf → Except Error Leaf
  relation : Relation → Relation

namespace PointChange

/-- Whether a change leaves the identifiers of leaves alone. -/
def KeepsIds (point : PointChange) : Prop :=
  ∀ l new, point.leaf l = .ok new → new.condition.id = l.condition.id

/-- The change that an update makes. -/
def updating (relation : Option Relation) (given : List (String × Input)) (ids : IdSupply) :
    PointChange where
  leaf l := Prod.fst <$> Reading.call (Reading.updatedLeaf given l) ids
  relation := relation.getD

/-- The change that flips a relation. -/
def flipping : PointChange where
  leaf := .ok
  relation := Relation.flipped

theorem keepsIds_updating (relation : Option Relation) (given : List (String × Input))
    (ids : IdSupply) : (updating relation given ids).KeepsIds := by
  intro l new h
  rcases Traversal.map_eq_ok_iff.mp h with ⟨⟨updated, left⟩, hcall, rfl⟩
  exact (Reading.run_updatedLeaf (Reading.call_eq_ok_iff.mp hcall)).1

theorem keepsIds_flipping : flipping.KeepsIds := by
  intro l new h
  rcases Except.ok.inj h with rfl
  rfl

end PointChange

namespace Node

mutual

/-- Makes a change at every topmost node of an identifier. -/
def change (target : String) (point : PointChange) : Node → Except Error Node
  | leaf l => if l.condition.id = target then leaf <$> point.leaf l else .ok (leaf l)
  | group id inner children =>
      if id = target then .ok (group id (point.relation inner) children)
      else group id inner <$> changeAll target point children

/-- Makes a change below several nodes. -/
def changeAll (target : String) (point : PointChange) : List Node → Except Error (List Node)
  | [] => .ok []
  | child :: rest => do
      let first ← change target point child
      let others ← changeAll target point rest
      return first :: others

end

/-- The children of a group are changed one by one. -/
theorem changeAll_eq_mapM (target : String) (point : PointChange) (children : List Node) :
    changeAll target point children = children.mapM (change target point) := by
  induction children with
  | nil => rfl
  | cons child rest ih =>
      rw [changeAll, ih, List.mapM_cons]

/-- A leaf of the identifier is changed. -/
theorem change_leaf (target : String) (point : PointChange) (l : Leaf) :
    change target point (leaf l) =
      if l.condition.id = target then leaf <$> point.leaf l else .ok (leaf l) := by
  rw [change]

/-- A group of the identifier takes another relation, and in any other one the children are
changed. -/
theorem change_group (target : String) (point : PointChange) (id : String) (inner : Relation)
    (children : List Node) :
    change target point (group id inner children) =
      if id = target then .ok (group id (point.relation inner) children)
      else group id inner <$> children.mapM (change target point) := by
  rw [change, changeAll_eq_mapM]

/-- Modifying changes the nodes of an identifier by an update. -/
theorem modify_eq_change (target : String) (relation : Option Relation)
    (given : List (String × Input)) (ids : IdSupply) (node : Node) :
    modify target relation given ids node =
      (·, ids) <$> change target (.updating relation given ids) node := by
  induction node with
  | leaf l =>
      rw [modify, change_leaf]
      split
      · have hleaf : (PointChange.updating relation given ids).leaf l =
            Prod.fst <$> Reading.call (Reading.updatedLeaf given l) ids := rfl
        rw [hleaf]
        cases hcall : Reading.call (Reading.updatedLeaf given l) ids with
        | error e => rfl
        | ok result =>
            rcases result with ⟨new, left⟩
            rcases Reading.run_updatedLeaf (Reading.call_eq_ok_iff.mp hcall) with ⟨_, _, rfl⟩
            rfl
      · rfl
  | group id inner children ih =>
      have hall : modifyAll target relation given ids children =
          (·, ids) <$> children.mapM (change target (.updating relation given ids)) := by
        clear id inner
        induction children with
        | nil => rw [modifyAll]; rfl
        | cons child rest ihRest =>
            rw [List.forall_mem_cons] at ih
            rw [modifyAll, ih.1, List.mapM_cons]
            cases change target (.updating relation given ids) child with
            | error e => rfl
            | ok first =>
                change (modifyAll target relation given ids rest >>= _) = _
                rw [ihRest ih.2]
                cases rest.mapM (change target (.updating relation given ids)) <;> rfl
      rw [modify, change_group]
      split
      · rfl
      · rw [hall]
        cases children.mapM (change target (.updating relation given ids)) <;> rfl

/-- Toggling changes the nodes of an identifier by flipping their relation. -/
theorem change_flipping (target : String) (node : Node) :
    change target .flipping node = .ok (node.toggle target) := by
  induction node with
  | leaf l =>
      rw [change_leaf, toggle]
      split <;> rfl
  | group id relation children ih =>
      rw [change_group, toggle, toggleAll_eq_map]
      split
      · rfl
      · have hpure : children.mapM (fun child => (.ok (child.toggle target) : Except Error Node)) =
            .ok (children.map (toggle target)) := List.mapM_pure
        rw [Traversal.mapM_congr ih, hpure]
        rfl

/-- Toggling twice does nothing. -/
theorem toggle_toggle (target : String) (node : Node) :
    (node.toggle target).toggle target = node := by
  induction node with
  | leaf l => rw [toggle, toggle]
  | group id relation children ih =>
      rw [toggle]
      by_cases hid : id = target
      · rw [if_pos hid, toggle, if_pos hid, Relation.flipped_flipped]
      · have hall : (children.map (toggle target)).map (toggle target) = children := by
          rw [List.map_map]
          exact (List.map_congr_left ih).trans (List.map_id children)
        rw [if_neg hid, toggle, if_neg hid, toggleAll_eq_map, toggleAll_eq_map, hall]

variable {target : String} {point : PointChange}

/-- Nothing is changed where the identifier does not occur. -/
theorem change_of_not_mem {node : Node} (h : target ∉ node.ids) :
    change target point node = .ok node := by
  induction node with
  | leaf l =>
      rw [ids_leaf, List.mem_singleton] at h
      rw [change_leaf, if_neg (Ne.symm h)]
  | group id inner children ih =>
      rw [not_mem_ids_group] at h
      rw [change_group, if_neg h.1,
        Traversal.mapM_eq_self fun child hchild => ih child hchild (h.2 child hchild)]
      rfl

/-- A change keeps all identifiers in their order. -/
theorem ids_change (hpoint : point.KeepsIds) {node new : Node}
    (h : change target point node = .ok new) : new.ids = node.ids := by
  induction node generalizing new with
  | leaf l =>
      rw [change_leaf] at h
      split at h
      · rcases Traversal.map_eq_ok_iff.mp h with ⟨l', hleaf, rfl⟩
        rw [ids_leaf, ids_leaf, hpoint l l' hleaf]
      · rcases Except.ok.inj h with rfl
        rfl
  | group id inner children ih =>
      rw [change_group] at h
      split at h
      · rcases Except.ok.inj h with rfl
        rw [ids_group, ids_group]
      · rcases Traversal.map_eq_ok_iff.mp h with ⟨changed, hchanged, rfl⟩
        have hids : changed.flatMap ids = children.flatMap ids := by
          have hall := Traversal.forall₂_of_mapM_eq_ok hchanged
          clear hchanged h
          induction hall with
          | nil => rfl
          | cons hchild _ ihRest =>
              rw [List.forall_mem_cons] at ih
              rw [List.flatMap_cons, List.flatMap_cons, ih.1 hchild, ihRest ih.2]
        rw [ids_group, ids_group, hids]

/-! ## The node in a place -/

/-- A change of the node in a frame is a change of the frame, if the identifier does not occur
there. -/
theorem Frame.change_fill {frame : Frame} (h : frame.Lacks target) (node : Node) :
    change target point (frame.fill node) = frame.fill <$> change target point node := by
  have hbefore : frame.before.mapM (change target point) = .ok frame.before :=
    Traversal.mapM_eq_self fun sibling hsibling => change_of_not_mem (h.before sibling hsibling)
  have hafter : frame.after.mapM (change target point) = .ok frame.after :=
    Traversal.mapM_eq_self fun sibling hsibling => change_of_not_mem (h.after sibling hsibling)
  rw [fill, change_group, if_neg h.id_ne, List.mapM_append, List.mapM_cons, hbefore, hafter]
  cases change target point node <;> rfl

/-- A change of the node in a place is a change of the tree, if the identifier does not occur around
the place. -/
theorem Place.change_fill {place : Place} (h : ∀ frame ∈ place, frame.Lacks target) (node : Node) :
    change target point (place.fill node) = place.fill <$> change target point node := by
  induction place with
  | nil => cases hchange : change target point node <;> simp [hchange]
  | cons frame inside ih =>
      rw [List.forall_mem_cons] at h
      rw [fill_cons, Frame.change_fill h.1, ih h.2]
      cases change target point node <;> rfl

/-! ## Changes at two identifiers -/

/-- A change does the same before and after a change at another identifier. -/
theorem passes_change {first second : String} {p q : PointChange} (hne : first ≠ second)
    (hp : p.KeepsIds) (hq : q.KeepsIds) (node : Node) :
    Traversal.Passes (change first p) (change second q) node := by
  induction node with
  | leaf l =>
      intro result hresult
      rw [change_leaf] at hresult
      by_cases hfirst : l.condition.id = first
      · rw [if_pos hfirst] at hresult
        rcases Traversal.map_eq_ok_iff.mp hresult with ⟨new, hnew, rfl⟩
        have hsecond : l.condition.id ≠ second := hfirst ▸ hne
        have hafter : new.condition.id ≠ second := by rwa [hp l new hnew]
        exact .inr ⟨leaf l, leaf new, by rw [change_leaf, if_neg hsecond],
          by rw [change_leaf, if_neg hafter], by rw [change_leaf, if_pos hfirst, hnew]; rfl⟩
      · rw [if_neg hfirst] at hresult
        rcases Except.ok.inj hresult with rfl
        cases hsecond : change second q (leaf l) with
        | error e => exact .inl ⟨e, rfl, rfl⟩
        | ok other =>
            have hids : other.ids = [l.condition.id] := by rw [ids_change hq hsecond, ids_leaf]
            refine .inr ⟨other, other, rfl, rfl, change_of_not_mem ?_⟩
            rw [hids, List.mem_singleton]
            exact Ne.symm hfirst
  | group id inner children ih =>
      intro result hresult
      rw [change_group] at hresult
      by_cases hfirst : id = first
      · have hsecond : id ≠ second := hfirst ▸ hne
        rw [if_pos hfirst] at hresult
        rcases Except.ok.inj hresult with rfl
        rw [change_group, change_group, if_neg hsecond, if_neg hsecond]
        -- The children are changed alike below either relation.
        cases children.mapM (change second q) with
        | error e => exact .inl ⟨e, rfl, rfl⟩
        | ok changed =>
            exact .inr ⟨_, _, rfl, rfl, by rw [change_group, if_pos hfirst]⟩
      · rw [if_neg hfirst] at hresult
        rcases Traversal.map_eq_ok_iff.mp hresult with ⟨changed, hchanged, rfl⟩
        rw [change_group, change_group]
        by_cases hsecond : id = second
        · rw [if_pos hsecond, if_pos hsecond]
          exact .inr ⟨_, _, rfl, rfl, by rw [change_group, if_neg hfirst, hchanged]; rfl⟩
        · rw [if_neg hsecond, if_neg hsecond]
          rcases Traversal.passes_mapM ih changed hchanged with ⟨e, hfail, hagain⟩ |
            ⟨others, both, hothers, hboth, hall⟩
          · exact .inl ⟨e, by rw [hfail]; rfl, by rw [hagain]; rfl⟩
          · refine .inr ⟨_, _, by rw [hothers]; rfl, by rw [hboth]; rfl, ?_⟩
            rw [change_group, if_neg hfirst, hall]
            rfl

/-! ## The node by itself -/

/-- What an update may make of a node by itself: a leaf keeps all fields that the update does not
name, and a group takes the relation, if one is given. -/
inductive IsUpdate (relation : Input) (given : List (String × Input)) : Node → Node → Prop
  | leaf {l new : Leaf} (h : l.Keeps (Input.names given) new) :
      IsUpdate relation given (leaf l) (leaf new)
  | group {stated : Option Relation} (h : Relation.resolve relation = .ok stated) (id : String)
      (inner : Relation) (children : List Node) :
      IsUpdate relation given (group id inner children) (group id (stated.getD inner) children)

/-- What toggling makes of a node by itself. -/
inductive IsToggle : Node → Node → Prop
  | leaf (l : Leaf) : IsToggle (leaf l) (leaf l)
  | group (id : String) (relation : Relation) (children : List Node) :
      IsToggle (group id relation children) (group id relation.flipped children)

/-- An update changes a node of the identifier as it may. -/
theorem isUpdate_of_change {relation : Input} {stated : Option Relation}
    {given : List (String × Input)} {ids : IdSupply} {node new : Node}
    (hstated : Relation.resolve relation = .ok stated)
    (h : node.change node.id (.updating stated given ids) = .ok new) :
    IsUpdate relation given node new := by
  cases node with
  | leaf l =>
      have hid : l.condition.id = (leaf l).id := rfl
      rw [change_leaf, if_pos hid] at h
      rcases Traversal.map_eq_ok_iff.mp h with ⟨l', hleaf, rfl⟩
      rcases Traversal.map_eq_ok_iff.mp hleaf with ⟨⟨updated, left⟩, hcall, rfl⟩
      exact .leaf (Reading.run_updatedLeaf_keeps (Reading.call_eq_ok_iff.mp hcall))
  | group id inner children =>
      have hid : id = (group id inner children).id := rfl
      rw [change_group, if_pos hid] at h
      rcases Except.ok.inj h with rfl
      exact .group hstated id inner children

/-- Toggling changes a node of the identifier as it should. -/
theorem isToggle_toggle (node : Node) : IsToggle node (node.toggle node.id) := by
  cases node with
  | leaf l =>
      rw [toggle]
      exact .leaf l
  | group id relation children =>
      have hid : id = (group id relation children).id := rfl
      rw [toggle, if_pos hid]
      exact .group id relation children

end Node

end FilterQuery
