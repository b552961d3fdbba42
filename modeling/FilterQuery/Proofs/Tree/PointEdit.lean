import FilterQuery.Proofs.Tree.Change

/-!
# Edits of a single node

Where no identifier of a tree occurs twice, updating and toggling change the node in one place, and
the tree around it stays.  Edits of different nodes come to the same in either order.  For this it
is not enough that their walks pass each other: an update whose relation cannot be read has no walk,
and fails only where its node is there.

Main results:

- `Tree.after_eq_change`: updating and toggling as changes of the node of an identifier.
- `Tree.passes_after`: edits of different nodes pass each other.
- `Tree.pointEdit_local_and_commuting`: edits of single nodes touch these alone and commute.
-/

namespace FilterQuery

/-- The identifier of the nodes that an edit changes by themselves, if that is all it does. -/
def Edit.point? : Edit → Option String
  | modify node _ _ => some node
  | toggle node => some node
  | _ => none

/-- The change that an edit of a single node makes; a relation that cannot be read fails. -/
def Edit.pointChange (ids : IdSupply) : Edit → Except Error PointChange
  | modify _ relation updates =>
      (PointChange.updating · (Tree.updateFields updates) ids) <$> Relation.resolve relation
  | _ => .ok .flipping

theorem Edit.keepsIds_pointChange {edit : Edit} {ids : IdSupply} {point : PointChange}
    (h : edit.pointChange ids = .ok point) : point.KeepsIds := by
  unfold pointChange at h
  split at h
  · rcases Traversal.map_eq_ok_iff.mp h with ⟨given, _, rfl⟩
    exact PointChange.keepsIds_updating _ _ _
  · rcases Except.ok.inj h with rfl
    exact PointChange.keepsIds_flipping

namespace Tree

/-- The tree after an edit, which is the same one if the edit does nothing. -/
def after (tree : Tree) (ids : IdSupply) (edit : Edit) : Except Error Tree :=
  (fun (new, _) => new.getD tree) <$> tree.perform ids edit

/-- Makes a change at the nodes of an identifier. -/
def change (target : String) (point : PointChange) (tree : Tree) : Except Error Tree :=
  match tree.root with
  | none => .ok tree
  | some root => (fun root => { tree with root := some root }) <$> root.change target point

theorem change_some (target : String) (point : PointChange) (id : String) (root : Node) :
    change target point { id, root := some root } =
      (fun root => { id, root := some root }) <$> root.change target point :=
  rfl

variable {tree new : Tree} {ids : IdSupply} {edit : Edit} {node : String} {point : PointChange}

/-- A change keeps the identifiers of a tree. -/
theorem nodeIds_change (hpoint : point.KeepsIds) (h : tree.change node point = .ok new) :
    new.nodeIds = tree.nodeIds := by
  rcases tree with ⟨treeId, _ | root⟩
  · rcases Except.ok.inj h with rfl
    rfl
  · rcases Traversal.map_eq_ok_iff.mp h with ⟨changed, hchanged, rfl⟩
    exact Node.ids_change hpoint hchanged

/-- A change of a node that is not there does nothing. -/
theorem change_of_not_hasId (h : tree.hasId node = false) : tree.change node point = .ok tree := by
  have hgone : node ∉ tree.nodeIds := by
    rw [← hasId_iff, h]
    exact Bool.false_ne_true
  rcases tree with ⟨treeId, _ | root⟩
  · rfl
  · rw [change_some, Node.change_of_not_mem hgone]
    rfl

/-- A node that is there has its place in the tree, and is changed there. -/
theorem exists_change_fill (hdistinct : tree.nodeIds.Nodup) (h : tree.hasId node = true) :
    ∃ (place : Node.Place) (inner : Node), inner.id = node ∧
      tree.find? node = some inner ∧ tree.root = some (place.fill inner) ∧
      ∀ point, tree.change node point =
        (fun changed => { tree with root := some (place.fill changed) }) <$>
          inner.change node point := by
  rw [hasId, Option.isSome_iff_exists] at h
  rcases h with ⟨inner, hfind⟩
  have hid : inner.id = node := find?_id hfind
  have hmem := List.mem_of_find?_eq_some hfind
  rcases tree with ⟨treeId, _ | root⟩
  · contradiction
  · rcases Node.exists_fill_of_mem_walk hmem with ⟨place, rfl⟩
    have hlacks := Node.Place.lacks_of_mem hdistinct (hid ▸ inner.id_mem_ids)
    refine ⟨place, inner, hid, hfind, rfl, fun point => ?_⟩
    rw [change_some, Node.Place.change_fill hlacks]
    cases inner.change node point <;> rfl

/-- Toggling flips the relation of a group in its place, and does nothing anywhere else. -/
theorem change_flipping (hdistinct : tree.nodeIds.Nodup) (node : String) :
    tree.change node .flipping = .ok ((tree.toggle node).getD tree) := by
  cases hnode : tree.hasId node with
  | false =>
      have hfind : tree.find? node = none := by simpa [hasId] using hnode
      rw [change_of_not_hasId hnode, toggle, hfind]
      simp
  | true =>
      rcases exists_change_fill hdistinct hnode with ⟨place, inner, hid, hfind, hroot, hchange⟩
      cases inner with
      | leaf l =>
          have hkept : (Node.leaf l).change node .flipping = .ok (.leaf l) := by
            rw [Node.change_flipping, Node.toggle]
          rw [hchange, hkept, toggle, hfind, hroot]
          rcases tree with ⟨treeId, root⟩
          subst hroot
          rfl
      | group id relation children =>
          rcases tree with ⟨treeId, root⟩
          subst hroot
          rw [toggle, hfind, change_some, Node.change_flipping]
          rfl

/-- An edit of a single node makes its change if the node is there. -/
theorem after_eq_change (hdistinct : tree.nodeIds.Nodup) (hpoint : edit.point? = some node)
    (ids : IdSupply) :
    tree.after ids edit =
      if tree.hasId node then edit.pointChange ids >>= (tree.change node ·) else .ok tree := by
  unfold Edit.point? at hpoint
  split at hpoint
  · next target relation updates =>
      rcases Option.some.inj hpoint with rfl
      rcases tree with ⟨treeId, _ | root⟩
      · rfl
      · simp only [after, perform, modify, Edit.pointChange]
        split
        · cases Relation.resolve relation with
          | error e => rfl
          | ok given =>
              change _ <$> (root.modify target given (updateFields updates) ids >>= _) =
                change target (.updating given (updateFields updates) ids) ⟨treeId, some root⟩
              rw [Node.modify_eq_change, change_some]
              cases root.change target (.updating given (updateFields updates) ids) <;> rfl
        · rfl
  · next target =>
      rcases Option.some.inj hpoint with rfl
      have hafter : tree.after ids (.toggle target) = .ok ((tree.toggle target).getD tree) := rfl
      rw [hafter]
      split
      · exact (change_flipping hdistinct target).symm
      · next hnode => rw [← change_flipping hdistinct, change_of_not_hasId (by simpa using hnode)]
  · contradiction

/-- Where the change is known, an edit makes it, whether the node is there or not. -/
theorem after_eq_change_of_ok (hdistinct : tree.nodeIds.Nodup) (hpoint : edit.point? = some node)
    (hchange : edit.pointChange ids = .ok point) :
    tree.after ids edit = tree.change node point := by
  rw [after_eq_change hdistinct hpoint, hchange]
  split
  · rfl
  · next hnode => exact (change_of_not_hasId (by simpa using hnode)).symm

/-- A successful edit of a single node keeps the identifiers of a tree. -/
theorem nodeIds_after (hdistinct : tree.nodeIds.Nodup) (hpoint : edit.point? = some node)
    (h : tree.after ids edit = .ok new) : new.nodeIds = tree.nodeIds := by
  rw [after_eq_change hdistinct hpoint] at h
  split at h
  · rcases Traversal.bind_eq_ok_iff.mp h with ⟨point, hchange, hnew⟩
    exact nodeIds_change (Edit.keepsIds_pointChange hchange) hnew
  · rcases Except.ok.inj h with rfl
    rfl

/-- Changes at different identifiers pass each other. -/
theorem passes_change {first second : String} {p q : PointChange} (hne : first ≠ second)
    (hp : p.KeepsIds) (hq : q.KeepsIds) (tree : Tree) :
    Traversal.Passes (change first p) (change second q) tree := by
  intro result hresult
  rcases tree with ⟨treeId, _ | root⟩
  · rcases Except.ok.inj hresult with rfl
    exact .inr ⟨_, _, rfl, rfl, rfl⟩
  · rcases Traversal.map_eq_ok_iff.mp hresult with ⟨changed, hchanged, rfl⟩
    simp only [change_some]
    rcases Node.passes_change hne hp hq root changed hchanged with ⟨e, hfail, hagain⟩ |
      ⟨other, both, hother, hboth, hfirst⟩
    · exact .inl ⟨e, by rw [hfail]; rfl, by rw [hagain]; rfl⟩
    · refine .inr ⟨_, _, by rw [hother]; rfl, by rw [hboth]; rfl, ?_⟩
      rw [change_some, hfirst]
      rfl

/-- Edits of different nodes pass each other. -/
theorem passes_after {first second : Edit} {a b : String} (hdistinct : tree.nodeIds.Nodup)
    (hfirst : first.point? = some a) (hsecond : second.point? = some b) (hne : a ≠ b)
    (ids : IdSupply) : Traversal.Passes (after · ids first) (after · ids second) tree := by
  intro result hresult
  have hids := nodeIds_after hdistinct hfirst hresult
  have hresultDistinct : result.nodeIds.Nodup := hids ▸ hdistinct
  have hsame {new : Tree} (h : new.nodeIds = tree.nodeIds) (node : String) :
      new.hasId node = tree.hasId node := by
    rw [Bool.eq_iff_iff, hasId_iff, hasId_iff, h]
  dsimp only at hresult ⊢
  cases hp : first.pointChange ids with
  | error e =>
      -- Such an edit only succeeds where its node is missing, and there it does nothing.
      rw [after_eq_change hdistinct hfirst, hp] at hresult
      split at hresult
      · contradiction
      · next hgone =>
          rcases Except.ok.inj hresult with rfl
          cases hother : tree.after ids second with
          | error e => exact .inl ⟨e, rfl, rfl⟩
          | ok other =>
              have hkept := nodeIds_after hdistinct hsecond hother
              refine .inr ⟨other, other, rfl, rfl, ?_⟩
              rw [after_eq_change (hkept ▸ hdistinct) hfirst, hsame hkept, if_neg hgone]
  | ok p =>
      cases hq : second.pointChange ids with
      | error e =>
          rw [after_eq_change hdistinct hsecond, after_eq_change hresultDistinct hsecond, hq,
            hsame hids]
          split
          · exact .inl ⟨e, rfl, rfl⟩
          · exact .inr ⟨tree, result, rfl, rfl, hresult⟩
      | ok q =>
          rw [after_eq_change_of_ok hdistinct hfirst hp] at hresult
          rw [after_eq_change_of_ok hdistinct hsecond hq,
            after_eq_change_of_ok hresultDistinct hsecond hq]
          rcases passes_change hne (Edit.keepsIds_pointChange hp) (Edit.keepsIds_pointChange hq)
            tree result hresult with hfail | ⟨other, both, hother, hboth, hthen⟩
          · exact .inl hfail
          · have hkept := nodeIds_change (Edit.keepsIds_pointChange hq) hother
            refine .inr ⟨other, both, hother, hboth, ?_⟩
            rwa [after_eq_change_of_ok (hkept ▸ hdistinct) hfirst hp]

/-- Whether two trees are the same but for the node of an identifier, if they have one: that node
has changed by itself, in its place. -/
def DiffersAt (node : String) (changed : Node → Node → Prop) (old new : Tree) : Prop :=
  (node ∉ old.nodeIds ∧ new = old) ∨
    ∃ (place : Node.Place) (inner other : Node), inner.id = node ∧
      old.root = some (place.fill inner) ∧ new = { old with root := some (place.fill other) } ∧
        changed inner other

/-- A change makes a difference at the node of its identifier alone. -/
theorem differsAt_of_change {changed : Node → Node → Prop} (hdistinct : tree.nodeIds.Nodup)
    (h : tree.change node point = .ok new)
    (hnode : ∀ inner other, inner.id = node → inner.change node point = .ok other →
      changed inner other) : tree.DiffersAt node changed new := by
  cases hthere : tree.hasId node with
  | false =>
      rw [change_of_not_hasId hthere] at h
      rcases Except.ok.inj h with rfl
      refine .inl ⟨?_, rfl⟩
      rw [← hasId_iff, hthere]
      exact Bool.false_ne_true
  | true =>
      rcases exists_change_fill hdistinct hthere with ⟨place, inner, hid, _, hroot, hchange⟩
      rw [hchange] at h
      rcases Traversal.map_eq_ok_iff.mp h with ⟨other, hother, rfl⟩
      exact .inr ⟨place, inner, other, hid, hroot, rfl, hnode inner other hid hother⟩

/-- A successful update changes the node of its identifier, and draws nothing. -/
theorem differsAt_of_modify {relation updates : Input} {result : Option Tree} {left : IdSupply}
    (hdistinct : tree.nodeIds.Nodup)
    (h : tree.perform ids (.modify node relation updates) = .ok (result, left)) :
    left = ids ∧
      tree.DiffersAt node (Node.IsUpdate relation (updateFields updates)) (result.getD tree) := by
  constructor
  · change tree.modify node relation updates ids = _ at h
    rcases tree with ⟨treeId, _ | root⟩
    · exact (Prod.mk.inj (Except.ok.inj h)).2.symm
    · simp only [modify] at h
      split at h
      · rcases Traversal.bind_eq_ok_iff.mp h with ⟨stated, _, hthen⟩
        rcases Traversal.bind_eq_ok_iff.mp hthen with ⟨⟨changed, rest⟩, hmodify, hresult⟩
        rcases Prod.mk.inj (Except.ok.inj hresult) with ⟨_, rfl⟩
        exact (Node.keepsFrame_modify hmodify).2
      · exact (Prod.mk.inj (Except.ok.inj h)).2.symm
  · have hafter : tree.after ids (.modify node relation updates) = .ok (result.getD tree) :=
      Traversal.map_eq_ok_iff.mpr ⟨_, h, rfl⟩
    rw [after_eq_change hdistinct rfl] at hafter
    split at hafter
    · rcases Traversal.bind_eq_ok_iff.mp hafter with ⟨point, hpoint, hchange⟩
      rcases Traversal.map_eq_ok_iff.mp hpoint with ⟨stated, hstated, rfl⟩
      refine differsAt_of_change hdistinct hchange fun inner other hid hother => ?_
      subst hid
      exact Node.isUpdate_of_change hstated hother
    · next hgone =>
        rcases Except.ok.inj hafter with hsame
        refine .inl ⟨?_, hsame.symm⟩
        rwa [← hasId_iff]

/-- Toggling changes the node of its identifier. -/
theorem differsAt_toggle (hdistinct : tree.nodeIds.Nodup) (node : String) :
    tree.DiffersAt node Node.IsToggle ((tree.toggle node).getD tree) := by
  refine differsAt_of_change hdistinct (change_flipping hdistinct node) ?_
  intro inner other hid hother
  subst hid
  rw [Node.change_flipping] at hother
  rcases Except.ok.inj hother with rfl
  exact Node.isToggle_toggle inner

/-- Toggling twice gives the tree back. -/
theorem toggle_toggle (hdistinct : tree.nodeIds.Nodup) (node : String) :
    (((tree.toggle node).getD tree).toggle node).getD ((tree.toggle node).getD tree) = tree := by
  have hfirst := change_flipping hdistinct node
  generalize (tree.toggle node).getD tree = toggled at hfirst ⊢
  have hids := nodeIds_change PointChange.keepsIds_flipping hfirst
  have hsecond := change_flipping (hids ▸ hdistinct) node
  rcases tree with ⟨treeId, _ | root⟩
  · rcases Except.ok.inj hfirst with rfl
    rfl
  · rw [change_some, Node.change_flipping] at hfirst
    rcases Except.ok.inj hfirst with rfl
    rw [change_some, Node.change_flipping, Node.toggle_toggle] at hsecond
    exact (Except.ok.inj hsecond).symm

/-- In a tree without repeated identifiers, updating and toggling touch one node alone.  An update
that succeeds leaves everything in its place but what it names of that node, and toggling flips the
relation of that node, if it is a group; toggling it again gives the tree back.  Two such edits of
different nodes come to the same in either order, and if both succeed by themselves, they do so one
after the other. -/
theorem pointEdit_local_and_commuting (hdistinct : tree.nodeIds.Nodup) :
    (∀ ids node relation updates result left,
      tree.perform ids (.modify node relation updates) = .ok (result, left) →
        left = ids ∧
          tree.DiffersAt node (Node.IsUpdate relation (updateFields updates))
            (result.getD tree)) ∧
      (∀ ids node, ∃ toggled, tree.after ids (.toggle node) = .ok toggled ∧
        tree.DiffersAt node Node.IsToggle toggled ∧
          toggled.after ids (.toggle node) = .ok tree) ∧
      ∀ ids first second a b, Edit.point? first = some a → Edit.point? second = some b → a ≠ b →
        (∀ both, tree.after ids first >>= (after · ids second) = .ok both ↔
          tree.after ids second >>= (after · ids first) = .ok both) ∧
        ∀ new other, tree.after ids first = .ok new → tree.after ids second = .ok other →
          ∃ both, new.after ids second = .ok both ∧ other.after ids first = .ok both := by
  refine ⟨?_, ?_, ?_⟩
  · intro ids node relation updates result left h
    exact differsAt_of_modify hdistinct h
  · intro ids node
    refine ⟨_, rfl, differsAt_toggle hdistinct node, ?_⟩
    exact congrArg Except.ok (toggle_toggle hdistinct node)
  · intro ids first second a b hfirst hsecond hne
    have hpasses := passes_after hdistinct hfirst hsecond hne ids
    have hreturns := passes_after hdistinct hsecond hfirst (Ne.symm hne) ids
    refine ⟨fun both => ⟨hpasses.bind_eq_ok, hreturns.bind_eq_ok⟩, ?_⟩
    intro new other hnew hother
    exact hpasses.exists_both hnew hother

/-- A condition takes a lower limit, and the group in which it lies takes the other relation. -/
theorem pointEdit_of_nested_nodes :
    let host : Node := .leaf (.plain { id := "a", field := "host", operator := some .present })
    let size : Condition := { id := "b", field := "size", operator := some .range }
    let limited : Condition := { size with lower := { limit := .text "5" } }
    let verb : Node := .leaf (.plain { id := "c" })
    let tree : Tree := { id := "t", root := some (.group "g" .and
      [host, .group "h" .or [.leaf (.plain size), verb]]) }
    let updated : Tree := { id := "t", root := some (.group "g" .and
      [host, .group "h" .or [.leaf (.plain limited), verb]]) }
    let both : Tree := { id := "t", root := some (.group "g" .and
      [host, .group "h" .and [.leaf (.plain limited), verb]]) }
    let first : Edit := .modify "b" .null (.object [("minValue", .text "5")])
    let ids : IdSupply := ⟨"n", 0⟩
    tree.nodeIds.Nodup ∧ tree.after ids first = .ok updated ∧
      tree.DiffersAt "b" (Node.IsUpdate .null [("minValue", .text "5")]) updated ∧
      tree.after ids first >>= (after · ids (.toggle "h")) = .ok both ∧
      tree.after ids (.toggle "h") >>= (after · ids first) = .ok both := by
  intro host size limited verb tree updated both first ids
  have hdistinct : tree.nodeIds.Nodup := by decide +kernel
  obtain ⟨hmodify, _, hcommute⟩ := pointEdit_local_and_commuting hdistinct
  obtain ⟨horder, _⟩ := hcommute ids first (.toggle "h") "b" "h" rfl rfl (by decide)
  have hleaf : Reading.call (Reading.updatedLeaf [("minValue", .text "5")] (.plain size)) ids =
      .ok (.plain limited, ids) := by
    rw [Reading.call_eq_ok_iff, Reading.run_updatedLeaf_iff ids (by simp)]
    exact ⟨rfl, .plain { id := ids.mint.1, lower := { limit := .text "5" } }, ids.mint.2, rfl, rfl⟩
  have hupdated : tree.after ids first = .ok updated := by
    let place : Node.Place := [⟨"g", .and, [host], []⟩, ⟨"h", .or, [], [verb]⟩]
    have hlacks : ∀ frame ∈ place, frame.Lacks "b" := by
      have hmem : "b" ∈ (Node.leaf (.plain size)).ids := Node.id_mem_ids _
      exact Node.Place.lacks_of_mem hdistinct hmem
    have hsize : (Node.leaf (.plain size)).change "b"
        (.updating none [("minValue", .text "5")] ids) = .ok (.leaf (.plain limited)) := by
      rw [Node.change_leaf]
      change Node.leaf <$> Prod.fst <$> _ = _
      rw [hleaf]
      rfl
    rw [after_eq_change_of_ok hdistinct rfl rfl]
    change (fun root => (⟨"t", some root⟩ : Tree)) <$>
      (place.fill (.leaf (.plain size))).change "b"
        (.updating none [("minValue", .text "5")] ids) = _
    rw [Node.Place.change_fill hlacks, hsize]
    rfl
  have hboth : tree.after ids first >>= (after · ids (.toggle "h")) = .ok both := by
    rw [hupdated]
    rfl
  obtain ⟨⟨result, left⟩, hperform, hresult⟩ := Traversal.map_eq_ok_iff.mp hupdated
  obtain ⟨_, hdiffers⟩ := hmodify ids "b" _ _ result left hperform
  exact ⟨hdistinct, hupdated, hresult ▸ hdiffers, hboth, (horder both).mp hboth⟩

end Tree

end FilterQuery
