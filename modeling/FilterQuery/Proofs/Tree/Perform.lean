import FilterQuery.Proofs.Tree.Place

/-!
# Edits keep trees well-formed

Every edit of a tree is sound: the supply of identifiers moves forward, and where the identifiers
that were drawn are new, the tree that comes out is well-formed.  It has no identifier but those
that were known before and those that were drawn.

Main results:

- `wellFormed_attach`: a node that shares no identifier with a tree is attached to it safely.
- `add_cases`, `remove_cases`, `move_cases`: everything that these edits can come to.
- `add_eq`, `remove_eq`, `move_eq`: what they come to where they go through.
- `subperm_nodeIds_remove`: what is taken out of a tree shares no identifier with what stays.
- `sound_perform`: every edit is sound.
-/

open scoped List

namespace FilterQuery

/-- Whether identifiers are new: none of them is known, and none occurs twice. -/
structure AreNew (known drawn : List String) : Prop where
  distinct : drawn.Nodup
  unknown : ∀ id ∈ drawn, id ∉ known

instance (known drawn : List String) : Decidable (AreNew known drawn) :=
  decidable_of_iff (drawn.Nodup ∧ ∀ id ∈ drawn, id ∉ known)
    ⟨fun h => ⟨h.1, h.2⟩, fun h => ⟨h.distinct, h.unknown⟩⟩

/-- What is drawn last has to differ from what is drawn first as well. -/
theorem areNew_append {known first second : List String} :
    AreNew known (first ++ second) ↔ AreNew known first ∧ AreNew (known ++ first) second := by
  constructor
  · intro h
    rcases List.nodup_append.mp h.distinct with ⟨hfirst, hsecond, hdisjoint⟩
    refine ⟨⟨hfirst, fun id hid => h.unknown id (List.mem_append_left _ hid)⟩, hsecond, ?_⟩
    intro id hid hmem
    rcases List.mem_append.mp hmem with hknown | hdrawn
    · exact h.unknown id (List.mem_append_right _ hid) hknown
    · exact hdisjoint id hdrawn id hid rfl
  · rintro ⟨hfirst, hsecond⟩
    constructor
    · refine List.nodup_append.mpr ⟨hfirst.distinct, hsecond.distinct, ?_⟩
      rintro id hid _ hmem rfl
      exact hsecond.unknown id hmem (List.mem_append_right _ hid)
    · intro id hid hknown
      rcases List.mem_append.mp hid with hdrawn | hdrawn
      · exact hfirst.unknown id hdrawn hknown
      · exact hsecond.unknown id hdrawn (List.mem_append_left _ hknown)

/-- Identifiers that are new are distinct from those that are known, and from each other. -/
theorem AreNew.nodup_append {known drawn old : List String} (h : AreNew known drawn)
    (hknown : old ⊆ known) (hold : old.Nodup) : (drawn ++ old).Nodup := by
  refine List.nodup_append.mpr ⟨h.distinct, hold, ?_⟩
  rintro id hid _ hmem rfl
  exact h.unknown id hid (hknown hmem)

namespace Tree

/-- Whether the result of an edit is sound, given the identifiers that are known. -/
def SoundResult (known : List String) (ids left : IdSupply) (result : Option Tree) : Prop :=
  ∃ count, left = ids.advance count ∧ (AreNew known (ids.draws count) →
    ∀ tree ∈ result, tree.WellFormed ∧ tree.nodeIds ⊆ known ++ ids.draws count)

/-- Where the tree stays as it is, nothing is to be shown but that the supply moves forward. -/
theorem soundResult_none {known : List String} {ids : IdSupply} (count : Nat) :
    SoundResult known ids (ids.advance count) none :=
  ⟨count, rfl, fun _ _ h => absurd h (Option.not_mem_none _)⟩

/-- An edit that draws nothing is sound if its result is. -/
theorem soundResult_of_wellFormed {known : List String} {ids : IdSupply} {tree : Tree}
    (hwf : tree.WellFormed) (hknown : tree.nodeIds ⊆ known) :
    SoundResult known ids ids (some tree) := by
  refine ⟨0, rfl, fun _ new hnew => ?_⟩
  rcases Option.mem_some_iff.mp hnew with rfl
  exact ⟨hwf, fun id hid => List.mem_append_left _ (hknown hid)⟩

/-- What is sound after some draws is sound from the start, if these draws count as known. -/
theorem soundResult_after {known : List String} {ids left : IdSupply} {first : Nat}
    {result : Option Tree}
    (h : SoundResult (known ++ ids.draws first) (ids.advance first) left result) :
    SoundResult known ids left result := by
  rcases h with ⟨count, rfl, hsound⟩
  refine ⟨first + count, ids.advance_advance first count, fun hnew => ?_⟩
  rw [ids.draws_add] at hnew ⊢
  rw [← List.append_assoc]
  exact hsound (areNew_append.mp hnew).2

/-- An identifier that is stated or drawn is known or drawn, if what is stated is known. -/
theorem mem_known_of_read {known drawn : List String} {stated : Option String} {id : String}
    (hstated : ∀ id ∈ stated, id ∈ known) (h : id ∈ stated.toList ++ drawn) :
    id ∈ known ++ drawn := by
  rcases List.mem_append.mp h with hgiven | hdrawn
  · exact List.mem_append_left _ (hstated id (Option.mem_toList.mp hgiven))
  · exact List.mem_append_right _ hdrawn

/-! ## Combining nodes -/

/-- A node that is combined with a node of a tree leaves the tree well-formed, if they share no
identifier and the identifiers that are drawn are new. -/
theorem wellFormed_attach {root added : Node} {target : String} (htarget : target ∈ root.ids)
    (hnodup : root.ids.Nodup) (hroot : root.AllProper) (hadded : added.AllProper)
    (id : String) (relation : Relation) (ids : IdSupply) :
    ∃ count, (Node.attach target relation added ids root).2 = ids.advance count ∧
      ∀ known, added.ids ++ root.ids ⊆ known → (added.ids ++ root.ids).Nodup →
        AreNew known (ids.draws count) →
          WellFormed { id, root := some (Node.attach target relation added ids root).1 } ∧
            (Node.attach target relation added ids root).1.ids ⊆ known ++ ids.draws count := by
  rcases Node.perm_ids_attach hnodup htarget ids with ⟨count, hleft, hids⟩
  refine ⟨count, hleft, fun known hknown hdistinct hnew => ⟨?_, ?_⟩⟩
  · rw [wellFormed_some]
    exact ⟨hids.nodup_iff.mpr (hnew.nodup_append hknown hdistinct),
      Node.allProper_attach hroot hadded ids⟩
  · intro id hid
    rcases List.mem_append.mp (hids.mem_iff.mp hid) with hdrawn | hold
    · exact List.mem_append_right _ hdrawn
    · exact List.mem_append_left _ (hknown hold)

/-- A node that is attached to a tree with which it shares no identifier brings no repeated one into
it, as long as those that are drawn are new. -/
theorem nodup_ids_attach {known : List String} {root added new : Node} {target : String}
    {relation : Relation} {ids left : IdSupply} (htarget : target ∈ root.ids)
    (hattach : Node.attach target relation added ids root = (new, left))
    (hapart : (added.ids ++ root.ids).Nodup) (hknown : added.ids ++ root.ids ⊆ known)
    (hnew : AreNew known (ids.drawn left)) : new.ids.Nodup := by
  rcases Node.perm_ids_attach hapart.of_append_right htarget ids with ⟨count, hleft, hids⟩
  rw [hattach] at hleft hids
  subst hleft
  rw [ids.drawn_advance] at hnew
  exact hids.nodup_iff.mpr (hnew.nodup_append hknown hapart)

/-! ## Starting over -/

/-- A tree of one plain condition is well-formed. -/
theorem wellFormed_condition (id : String) (c : Condition) :
    WellFormed { id, root := some (.leaf (.plain c)) } :=
  wellFormed_some.mpr ⟨by simp, by simp⟩

/-- A tree that starts with a condition has that condition alone. -/
theorem sound_start {known : List String} {condition : Input} {ids left : IdSupply} {tree : Tree}
    (hstated : ∀ id ∈ Reading.statedId? condition, id ∈ known)
    (h : start condition ids = .ok (tree, left)) : SoundResult known ids left (some tree) := by
  rcases Traversal.map_eq_ok_iff.mp h with ⟨⟨c, middle⟩, hread, hnew⟩
  rcases Prod.mk.inj hnew with ⟨rfl, rfl⟩
  rcases Reading.run_treeCondition (Reading.call_eq_ok_iff.mp hread) with ⟨count, rfl, hid⟩
  have hknown := mem_known_of_read hstated hid
  refine soundResult_after ⟨1, rfl, fun _ new hmem => ?_⟩
  rcases Option.mem_some_iff.mp hmem with rfl
  refine ⟨wellFormed_condition _ c, ?_⟩
  intro id hroot
  rw [nodeIds_some, Node.ids_leaf, List.mem_singleton] at hroot
  subst hroot
  exact List.mem_append_left _ hknown

/-! ## Adding -/

/-- What adding a condition comes to: an empty tree gets its root, a tree without the parent stays
as it is, and otherwise the condition is attached under an identifier that is not taken. -/
theorem add_cases {tree : Tree} {parent : Option String} {relation condition : Input}
    {ids left : IdSupply} {result : Option Tree}
    (h : tree.add parent relation condition ids = .ok (result, left)) :
    ∃ c read, (Reading.treeCondition condition).run ids = .ok (c, read) ∧
      ((tree.root = none ∧ result = some { tree with root := some (.leaf (.plain c)) } ∧
          left = read) ∨
        (result = none ∧ left = read) ∨
        ∃ root target given new, tree.root = some root ∧ tree.hasId target = true ∧
          Relation.resolve relation = .ok given ∧
          Node.attach target (given.getD .and)
            (.leaf (.plain { c with id := (tree.unusedId c.id read).1 }))
            (tree.unusedId c.id read).2 root = (new, left) ∧
          result = some { tree with root := some new }) := by
  unfold add at h
  rcases Traversal.bind_eq_ok_iff.mp h with ⟨⟨c, read⟩, hread, hadd⟩
  refine ⟨c, read, Reading.call_eq_ok_iff.mp hread, ?_⟩
  dsimp only at hadd
  split at hadd
  · next hroot =>
      rcases Prod.mk.inj (Except.ok.inj hadd) with ⟨rfl, rfl⟩
      exact .inl ⟨hroot, rfl, rfl⟩
  · rcases Prod.mk.inj (Except.ok.inj hadd) with ⟨rfl, rfl⟩
    exact .inr (.inl ⟨rfl, rfl⟩)
  · next root target hroot =>
      split at hadd
      · next htarget =>
          rcases Traversal.bind_eq_ok_iff.mp hadd with ⟨given, hgiven, hattach⟩
          rcases Prod.mk.inj (Except.ok.inj hattach) with ⟨rfl, rfl⟩
          exact .inr (.inr ⟨root, target, given, _, hroot, htarget, hgiven, rfl, rfl⟩)
      · rcases Prod.mk.inj (Except.ok.inj hadd) with ⟨rfl, rfl⟩
        exact .inr (.inl ⟨rfl, rfl⟩)

/-- A condition is added by attaching it to the parent, if the parent is there and the identifier of
the condition is not taken. -/
theorem add_eq {tree : Tree} {root : Node} {parent : String} {relation condition : Input}
    {ids read : IdSupply} {c : Condition} {given : Option Relation} (hroot : tree.root = some root)
    (hparent : tree.hasId parent = true)
    (hread : (Reading.treeCondition condition).run ids = .ok (c, read))
    (hgiven : Relation.resolve relation = .ok given) (hid : c.id ∉ tree.nodeIds) :
    tree.add (some parent) relation condition ids =
      let (new, left) := Node.attach parent (given.getD .and) (.leaf (.plain c)) read root
      .ok (some { tree with root := some new }, left) := by
  have hunused : tree.unusedId c.id read = (c.id, read) :=
    if_neg fun htaken => hid (hasId_iff.mp htaken)
  unfold add
  simp only [Reading.call_eq_ok_iff.mpr hread, hroot]
  refine (if_pos hparent).trans ?_
  simp only [hunused, hgiven]
  rfl

/-- The identifier under which a condition comes in does not occur in the tree. -/
theorem unusedId_spec (tree : Tree) (id : String) (ids : IdSupply) :
    ∃ count, (tree.unusedId id ids).2 = ids.advance count ∧
      ∀ known, tree.nodeIds ⊆ known → id ∈ known → AreNew known (ids.draws count) →
        (tree.unusedId id ids).1 ∉ tree.nodeIds ∧
          (tree.unusedId id ids).1 ∈ known ++ ids.draws count := by
  unfold unusedId
  split
  · refine ⟨1, ids.mint_eq.2, fun known hknown _ hnew => ?_⟩
    rw [ids.mint_eq.1] at hnew ⊢
    exact ⟨fun hmem => hnew.unknown _ (by simp) (hknown hmem), by simp⟩
  · next hfree =>
      refine ⟨0, rfl, fun known _ hid _ => ⟨fun hmem => hfree (hasId_iff.mpr hmem), ?_⟩⟩
      exact List.mem_append_left _ hid

/-- Attaching a condition under an identifier that is not taken is sound. -/
theorem sound_attach_condition {known : List String} {tree : Tree} {root new : Node}
    {target : String} {relation : Relation} {c : Condition} {ids left : IdSupply}
    (hwf : tree.WellFormed) (hknown : tree.nodeIds ⊆ known) (hid : c.id ∈ known)
    (hroot : tree.root = some root) (htarget : tree.hasId target = true)
    (hattach : Node.attach target relation
      (.leaf (.plain { c with id := (tree.unusedId c.id ids).1 })) (tree.unusedId c.id ids).2 root =
        (new, left)) :
    SoundResult known ids left (some { tree with root := some new }) := by
  obtain ⟨treeId, _⟩ := tree
  subst hroot
  rcases wellFormed_some.mp hwf with ⟨hdistinct, hproper⟩
  obtain ⟨first, hfirst, hunused⟩ := unusedId_spec { id := treeId, root := some root } c.id ids
  generalize unusedId { id := treeId, root := some root } c.id ids = named at *
  rcases named with ⟨id, middle⟩
  have hadded : Node.AllProper (.leaf (.plain { c with id })) := by simp
  obtain ⟨second, hsecond, hsound⟩ := wellFormed_attach (hasId_iff.mp htarget) hdistinct hproper
    hadded treeId relation middle
  rw [hattach] at hsecond hsound
  -- The first draw is the condition's own, if its identifier was taken; the second is the group's.
  dsimp only at hfirst hunused hsecond hsound
  subst hfirst hsecond
  refine ⟨first + second, ids.advance_advance first second, fun hnew result hmem => ?_⟩
  rcases Option.mem_some_iff.mp hmem with rfl
  rw [ids.draws_add, areNew_append] at hnew
  rcases hunused known hknown hid hnew.1 with ⟨hfree, hnamed⟩
  have hids : [id] ++ root.ids ⊆ known ++ ids.draws first := by
    intro other hother
    rcases List.mem_cons.mp hother with rfl | hold
    · exact hnamed
    · exact List.mem_append_left _ (hknown hold)
  have hapart : ([id] ++ root.ids).Nodup := List.nodup_cons.mpr ⟨hfree, hdistinct⟩
  rw [ids.draws_add, ← List.append_assoc]
  exact hsound _ (by simpa using hids) (by simpa using hapart) hnew.2

/-- Adding a condition to a well-formed tree is sound. -/
theorem sound_add {known : List String} {tree : Tree} {parent : Option String}
    {relation condition : Input} {ids left : IdSupply} {result : Option Tree}
    (hwf : tree.WellFormed) (hknown : tree.nodeIds ⊆ known)
    (hstated : ∀ id ∈ Reading.statedId? condition, id ∈ known)
    (h : tree.add parent relation condition ids = .ok (result, left)) :
    SoundResult known ids left result := by
  rcases add_cases h with ⟨c, read, hread, hcases⟩
  rcases Reading.run_treeCondition hread with ⟨first, rfl, hid⟩
  have hgiven := mem_known_of_read hstated hid
  have hbefore : tree.nodeIds ⊆ known ++ ids.draws first := fun id hid =>
    List.mem_append_left _ (hknown hid)
  have hafter : SoundResult (known ++ ids.draws first) (ids.advance first) left result := by
    rcases hcases with ⟨_, rfl, rfl⟩ | ⟨rfl, rfl⟩ |
      ⟨root, target, given, new, hroot, htarget, _, hattach, rfl⟩
    · exact soundResult_of_wellFormed (wellFormed_condition _ c) (by simpa using hgiven)
    · exact soundResult_none 0
    · exact sound_attach_condition hwf hbefore hgiven hroot htarget hattach
  exact soundResult_after hafter

/-! ## Edits in place -/

/-- An edit that keeps the frame of the root is sound. -/
theorem sound_of_keepsFrame {known : List String} {id : String} {root new : Node} {ids : IdSupply}
    (hframe : Node.KeepsFrame root new) (hwf : WellFormed { id, root := some root })
    (hknown : nodeIds { id, root := some root } ⊆ known) :
    SoundResult known ids ids (some { id, root := some new }) := by
  rcases wellFormed_some.mp hwf with ⟨hdistinct, hproper⟩
  have hids := hframe.ids_eq
  refine soundResult_of_wellFormed (wellFormed_some.mpr ⟨?_, hframe.proper hproper⟩) ?_
  · rwa [hids]
  · rwa [nodeIds_some, hids]

/-- Setting a relation or updating a condition keeps a tree well-formed. -/
theorem sound_modify {known : List String} {tree : Tree} {node : String}
    {relation updates : Input} {ids left : IdSupply} {result : Option Tree}
    (hwf : tree.WellFormed) (hknown : tree.nodeIds ⊆ known)
    (h : tree.modify node relation updates ids = .ok (result, left)) :
    SoundResult known ids left result := by
  rcases tree with ⟨treeId, root⟩
  unfold modify at h
  cases root with
  | none =>
      rcases Prod.mk.inj (Except.ok.inj h) with ⟨rfl, rfl⟩
      exact soundResult_none 0
  | some root =>
      by_cases hnode : Tree.hasId ⟨treeId, some root⟩ node = true
      · simp only [hnode, if_true] at h
        rcases Traversal.bind_eq_ok_iff.mp h with ⟨relation?, _, hthen⟩
        rcases Traversal.bind_eq_ok_iff.mp hthen with ⟨⟨new, rest⟩, hmodify, hresult⟩
        rcases Prod.mk.inj (Except.ok.inj hresult) with ⟨rfl, rfl⟩
        rcases Node.keepsFrame_modify hmodify with ⟨hframe, rfl⟩
        exact sound_of_keepsFrame hframe hwf hknown
      · simp only [hnode] at h
        rcases Prod.mk.inj (Except.ok.inj h) with ⟨rfl, rfl⟩
        exact soundResult_none 0

/-- Flipping a relation keeps a tree well-formed. -/
theorem sound_toggle {known : List String} {tree : Tree} (node : String) (ids : IdSupply)
    (hwf : tree.WellFormed) (hknown : tree.nodeIds ⊆ known) :
    SoundResult known ids ids (tree.toggle node) := by
  rcases tree with ⟨treeId, root⟩
  unfold toggle
  split
  · next root _ _ _ hroot _ =>
      subst hroot
      exact sound_of_keepsFrame (Node.keepsFrame_toggle node root) hwf hknown
  · exact soundResult_none 0

/-! ## Taking out -/

/-- Taking out a node takes it out of the root, and leaves the rest in normal form. -/
theorem remove_cases {tree removed : Tree} {node : String} (h : tree.remove node = some removed) :
    ∃ root, tree.root = some root ∧
      removed = { tree with root := (root.remove node).bind Node.normalize } := by
  unfold remove at h
  split at h
  · next root hroot =>
      split at h
      · exact ⟨root, hroot, (Option.some.inj h).symm⟩
      · contradiction
  · contradiction

/-- Taking out nodes of an identifier that occurs goes through. -/
theorem remove_eq {tree : Tree} {root : Node} {node : String} (hroot : tree.root = some root)
    (h : tree.hasId node = true) :
    tree.remove node = some { tree with root := (root.remove node).bind Node.normalize } := by
  unfold remove
  rw [hroot]
  exact if_pos h

/-- What is found can be taken out. -/
theorem exists_remove {tree : Tree} {node : String} {moving : Node}
    (h : tree.find? node = some moving) : ∃ removed, tree.remove node = some removed := by
  rcases tree with ⟨treeId, root⟩
  cases root with
  | none => contradiction
  | some root => exact ⟨_, remove_eq rfl (by rw [hasId, h]; rfl)⟩

/-- What is left of a node that is taken out and normalized has no other identifiers. -/
theorem sublist_nodeIds_detach (id node : String) (root : Node) :
    (nodeIds { id, root := (root.remove node).bind Node.normalize }).Sublist
      ((root.remove node).elim [] Node.ids) := by
  rw [nodeIds_eq_elim]
  exact Node.sublist_ids_bind_normalize _

/-- What is taken out of a tree shares no identifier with what stays, as long as none occurs
twice. -/
theorem subperm_nodeIds_remove {tree removed : Tree} {node : String} {moving : Node}
    (hmoving : tree.find? node = some moving) (h : tree.remove node = some removed) :
    moving.ids ++ removed.nodeIds <+~ tree.nodeIds := by
  rcases tree with ⟨treeId, root⟩
  rcases remove_cases h with ⟨root, rfl, rfl⟩
  have hmem : moving ∈ root.walk := List.mem_of_find?_eq_some hmoving
  have hstays : moving.ids ++ nodeIds ⟨treeId, (root.remove node).bind Node.normalize⟩ <+~
      moving.ids ++ (root.remove node).elim [] Node.ids :=
    (List.subperm_append_left _).mpr (sublist_nodeIds_detach treeId node root).subperm
  exact hstays.trans (Node.subperm_ids_remove hmem (find?_id hmoving))

/-- In a tree without repeated identifiers, what is taken out and what stays have none in common. -/
theorem nodup_nodeIds_remove {tree removed : Tree} {node : String} {moving : Node}
    (hdistinct : tree.nodeIds.Nodup) (hmoving : tree.find? node = some moving)
    (h : tree.remove node = some removed) : (moving.ids ++ removed.nodeIds).Nodup := by
  rcases subperm_nodeIds_remove hmoving h with ⟨kept, hperm, hsub⟩
  exact hperm.nodup_iff.mp (hdistinct.sublist hsub)

/-- Taking out a node of a well-formed tree leaves it well-formed, without new identifiers. -/
theorem wellFormed_remove {tree removed : Tree} {node : String} (hwf : tree.WellFormed)
    (h : tree.remove node = some removed) :
    removed.WellFormed ∧ removed.nodeIds ⊆ tree.nodeIds := by
  rcases tree with ⟨treeId, root⟩
  rcases remove_cases h with ⟨root, rfl, rfl⟩
  rcases wellFormed_some.mp hwf with ⟨hdistinct, hproper⟩
  have hids := (sublist_nodeIds_detach treeId node root).trans (root.sublist_ids_remove node)
  refine ⟨⟨hdistinct.sublist hids, ?_⟩, hids.subset⟩
  cases hrest : root.remove node with
  | none => exact fun _ h => absurd h List.not_mem_nil
  | some rest =>
      have hplain : rest.AllPlain := by
        have hleaves := root.sublist_leaves_remove node
        rw [hrest] at hleaves
        exact fun l hl => hproper.allPlain l (hleaves.subset hl)
      cases hnormal : rest.normalize with
      | none => simp [walk, hnormal]
      | some normal =>
          have hnormalProper := Node.allProper_normalize hplain hnormal
          intro inner hinner
          exact hnormalProper inner (by simpa [walk, hnormal] using hinner)

/-! ## Moving -/

/-- What moving a node comes to: the tree stays as it is, or the node is taken out and attached to
the target, which is still there. -/
theorem move_cases {tree : Tree} {node target : String} {relation : Input} {ids left : IdSupply}
    {result : Option Tree} (h : tree.move node target relation ids = .ok (result, left)) :
    (result = none ∧ left = ids) ∨
      ∃ moving removed root given new, tree.find? node = some moving ∧ node ≠ target ∧
        tree.hasId target = true ∧ target ∉ moving.ids ∧ tree.remove node = some removed ∧
        removed.root = some root ∧ removed.hasId target = true ∧
        Relation.resolve relation = .ok given ∧
        Node.attach target (given.getD .and) moving ids root = (new, left) ∧
        result = some { removed with root := some new } := by
  unfold move at h
  split at h
  · rcases Prod.mk.inj (Except.ok.inj h) with ⟨rfl, rfl⟩
    exact .inl ⟨rfl, rfl⟩
  · next moving hmoving =>
      split at h
      · rcases Prod.mk.inj (Except.ok.inj h) with ⟨rfl, rfl⟩
        exact .inl ⟨rfl, rfl⟩
      · next hguard =>
          rcases exists_remove hmoving with ⟨removed, hremove⟩
          simp only [Bool.or_eq_true, decide_eq_true_eq, not_or, Bool.not_eq_true',
            Bool.not_eq_false] at hguard
          rcases hguard with ⟨⟨hne, htarget⟩, houtside⟩
          simp only [hremove, Option.getD_some] at h
          split at h
          · next root hroot =>
              split at h
              · next hstays =>
                  rcases Traversal.bind_eq_ok_iff.mp h with ⟨given, hgiven, hattach⟩
                  rcases Prod.mk.inj (Except.ok.inj hattach) with ⟨rfl, rfl⟩
                  refine .inr ⟨moving, removed, root, given, _, hmoving, hne, htarget, ?_, hremove,
                    hroot, hstays, hgiven, rfl, rfl⟩
                  intro hinside
                  rcases List.mem_map.mp hinside with ⟨inner, hinner, hid⟩
                  exact houtside (List.any_eq_true.mpr ⟨inner, hinner, by simpa using hid⟩)
              · rcases Prod.mk.inj (Except.ok.inj h) with ⟨rfl, rfl⟩
                exact .inl ⟨rfl, rfl⟩
          · rcases Prod.mk.inj (Except.ok.inj h) with ⟨rfl, rfl⟩
            exact .inl ⟨rfl, rfl⟩

/-- A node of a tree is found by its identifier, as long as none occurs twice. -/
theorem find?_of_mem {tree : Tree} {node : Node} (hdistinct : tree.nodeIds.Nodup)
    (hmem : node ∈ tree.walk) : tree.find? node.id = some node := by
  have hsome : (tree.find? node.id).isSome = true :=
    List.find?_isSome.mpr ⟨node, hmem, by simp⟩
  rcases Option.isSome_iff_exists.mp hsome with ⟨found, hfound⟩
  have hsame := List.inj_on_of_nodup_map hdistinct (List.mem_of_find?_eq_some hfound) hmem
    (find?_id hfound)
  rw [hfound, hsame]

/-- A node is moved by taking it out and attaching it to the target, if the target lies outside of
it and is still there afterwards. -/
theorem move_eq {tree removed : Tree} {moving root : Node} {target : String} {relation : Input}
    {given : Option Relation} {ids : IdSupply} (hfound : tree.find? moving.id = some moving)
    (htarget : tree.hasId target = true) (houtside : target ∉ moving.ids)
    (hremove : tree.remove moving.id = some removed) (hroot : removed.root = some root)
    (hstays : removed.hasId target = true) (hgiven : Relation.resolve relation = .ok given) :
    tree.move moving.id target relation ids =
      let (new, left) := Node.attach target (given.getD .and) moving ids root
      .ok (some { removed with root := some new }, left) := by
  have hne : moving.id ≠ target := fun heq =>
    houtside (heq ▸ moving.id_mem_ids)
  have hnone : moving.walk.any (·.id == target) = false := by
    rw [List.any_eq_false]
    intro inner hinner heq
    exact houtside (List.mem_map.mpr ⟨inner, hinner, by simpa using heq⟩)
  have hguard : (moving.id = target || !tree.hasId target ||
      moving.walk.any (·.id == target)) = false := by
    simp [hne, htarget, hnone]
  unfold move
  simp only [hfound, hguard, hremove, hroot, Option.getD_some, hstays, hgiven, if_true,
    Bool.false_eq_true, if_false]
  rfl

/-- Moving a node inside a well-formed tree is sound. -/
theorem sound_move {known : List String} {tree : Tree} {node target : String} {relation : Input}
    {ids left : IdSupply} {result : Option Tree}
    (hwf : tree.WellFormed) (hknown : tree.nodeIds ⊆ known)
    (h : tree.move node target relation ids = .ok (result, left)) :
    SoundResult known ids left result := by
  rcases move_cases h with ⟨rfl, rfl⟩ |
    ⟨moving, removed, root, given, new, hmoving, _, _, _, hremove, hroot, htarget, _, hattach, rfl⟩
  · exact soundResult_none 0
  · have hsubperm := subperm_nodeIds_remove hmoving hremove
    rcases wellFormed_remove hwf hremove with ⟨hremoved, _⟩
    rcases removed with ⟨treeId, _⟩
    subst hroot
    rcases wellFormed_some.mp hremoved with ⟨hdistinct, hproper⟩
    have hmovingProper := hwf.allProper_of_find? hmoving
    have hapart := nodup_nodeIds_remove hwf.distinct hmoving hremove
    obtain ⟨count, hleft, hsound⟩ := wellFormed_attach (hasId_iff.mp htarget)
      hdistinct hproper hmovingProper treeId (given.getD .and) ids
    rw [hattach] at hleft hsound
    refine ⟨count, hleft, fun hnew result hmem => ?_⟩
    rcases Option.mem_some_iff.mp hmem with rfl
    exact hsound known (fun id hid => hknown (hsubperm.subset hid)) hapart hnew

/-! ## All edits -/

end Tree

/-- The identifier that the data of an edit states for the condition that comes in. -/
def Edit.statedId? : Edit → Option String
  | .start condition | .add _ _ condition => Reading.statedId? condition
  | _ => none

/-- Every edit of a well-formed tree is sound. -/
theorem Tree.sound_perform {known : List String} {tree : Tree} {edit : Edit}
    {ids left : IdSupply} {result : Option Tree}
    (hwf : tree.WellFormed) (hknown : tree.nodeIds ⊆ known)
    (hstated : ∀ id ∈ edit.statedId?, id ∈ known)
    (h : tree.perform ids edit = .ok (result, left)) : SoundResult known ids left result := by
  cases edit with
  | start condition =>
      rcases Traversal.map_eq_ok_iff.mp h with ⟨⟨new, rest⟩, hstart, hresult⟩
      rcases Prod.mk.inj hresult with ⟨rfl, rfl⟩
      exact sound_start hstated hstart
  | add parent relation condition => exact sound_add hwf hknown hstated h
  | modify node relation updates => exact sound_modify hwf hknown h
  | remove node =>
      rcases Prod.mk.inj (Except.ok.inj h) with ⟨rfl, rfl⟩
      cases hremove : tree.remove node with
      | none => exact soundResult_none 0
      | some removed =>
          rcases wellFormed_remove hwf hremove with ⟨hnew, hids⟩
          exact soundResult_of_wellFormed hnew fun id hid => hknown (hids hid)
  | toggle node =>
      rcases Prod.mk.inj (Except.ok.inj h) with ⟨rfl, rfl⟩
      exact sound_toggle node ids hwf hknown
  | move node target relation => exact sound_move hwf hknown h
  | reset =>
      rcases Prod.mk.inj (Except.ok.inj h) with ⟨rfl, rfl⟩
      refine ⟨1, rfl, fun _ new hmem => ?_⟩
      rcases Option.mem_some_iff.mp hmem with rfl
      exact ⟨wellFormed_none _, by simp⟩

end FilterQuery
