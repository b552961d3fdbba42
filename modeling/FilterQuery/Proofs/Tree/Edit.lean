import FilterQuery.Proofs.Reading
import FilterQuery.Proofs.Traversal
import FilterQuery.Proofs.Tree.WellFormed
import Mathlib.Data.List.Forall2
import Mathlib.Data.List.Nodup

/-!
# Edits below a node

Toggling and modifying keep every identifier in its place.  Attaching changes every topmost node of
an identifier, and draws an identifier for every group that it puts around such a node.

Main results:

- `keepsFrame_toggle`, `keepsFrame_modify`: identifiers and shape stay as they are.
- `attach_induction`: everything that attaching can come to, with the identifiers that are drawn.
- `allProper_attach`: a proper node that is attached to a proper one leaves it proper.
-/

open scoped List

namespace FilterQuery.Node

/-! ## Edits in place -/

/-- Whether a node has the identifiers of another one in the same order, and is proper if that one
is. -/
structure KeepsFrame (old new : Node) : Prop where
  ids_eq : new.ids = old.ids
  proper : old.AllProper → new.AllProper

/-- A node keeps its own frame. -/
theorem KeepsFrame.refl (node : Node) : KeepsFrame node node :=
  ⟨rfl, fun h => h⟩

/-- A group keeps its frame when its children do, whatever becomes of its relation. -/
theorem keepsFrame_group (id : String) (relation new : Relation) {children changed : List Node}
    (h : List.Forall₂ KeepsFrame children changed) :
    KeepsFrame (group id relation children) (group id new changed) := by
  have hids : changed.flatMap ids = children.flatMap ids := by
    induction h with
    | nil => rfl
    | cons hchild _ ih => rw [List.flatMap_cons, List.flatMap_cons, hchild.ids_eq, ih]
  refine ⟨?_, fun hall => ?_⟩
  · rw [ids_group, ids_group, hids]
  · rw [allProper_group] at hall ⊢
    rw [← h.length_eq]
    exact ⟨hall.1, Traversal.forall_mem_of_forall₂ (h.imp fun _ _ hframe => hframe.proper) hall.2⟩

/-- The children of a group are toggled one by one. -/
theorem toggleAll_eq_map (target : String) (children : List Node) :
    toggleAll target children = children.map (toggle target) := by
  induction children with
  | nil => rfl
  | cons child rest ih => rw [toggleAll, ih, List.map_cons]

/-- Toggling keeps identifiers and shape. -/
theorem keepsFrame_toggle (target : String) (node : Node) :
    KeepsFrame node (node.toggle target) := by
  induction node with
  | leaf l =>
      rw [toggle]
      exact .refl _
  | group id relation children ih =>
      rw [toggle]
      split
      · exact keepsFrame_group id _ _ (List.forall₂_same.mpr fun child _ => .refl child)
      · rw [toggleAll_eq_map]
        exact keepsFrame_group id _ _ (List.forall₂_map_right_iff.mpr (List.forall₂_same.mpr ih))

/-- Modifying several nodes keeps frames and draws nothing if it does so at each of them. -/
theorem keepsFrame_modifyAll {target : String} {relation : Option Relation}
    {given : List (String × Input)} {children changed : List Node} {ids left : IdSupply}
    (hstep : ∀ child ∈ children, ∀ ids new left,
      modify target relation given ids child = .ok (new, left) → KeepsFrame child new ∧ left = ids)
    (h : modifyAll target relation given ids children = .ok (changed, left)) :
    List.Forall₂ KeepsFrame children changed ∧ left = ids := by
  induction children generalizing changed left with
  | nil =>
      rw [modifyAll] at h
      rcases Prod.mk.inj (Except.ok.inj h) with ⟨rfl, rfl⟩
      exact ⟨.nil, rfl⟩
  | cons child rest ih =>
      rw [modifyAll] at h
      rcases Traversal.bind_eq_ok_iff.mp h with ⟨⟨new, middle⟩, hchild, hthen⟩
      rcases Traversal.bind_eq_ok_iff.mp hthen with ⟨⟨others, last⟩, hrest, hresult⟩
      rcases hstep child (by simp) ids new middle hchild with ⟨hframe, rfl⟩
      obtain ⟨hframes, rfl⟩ := ih
        (fun other hother => hstep other (List.mem_cons_of_mem _ hother)) hrest
      rcases Prod.mk.inj (Except.ok.inj hresult) with ⟨rfl, rfl⟩
      exact ⟨.cons hframe hframes, rfl⟩

/-- Modifying keeps identifiers and shape, and draws nothing. -/
theorem keepsFrame_modify {target : String} {relation : Option Relation}
    {given : List (String × Input)} {node new : Node} {ids left : IdSupply}
    (h : modify target relation given ids node = .ok (new, left)) :
    KeepsFrame node new ∧ left = ids := by
  induction node generalizing new ids left with
  | leaf l =>
      rw [modify] at h
      split at h
      · rcases Traversal.map_eq_ok_iff.mp h with ⟨⟨updated, rest⟩, hupdated, hresult⟩
        rcases Prod.mk.inj hresult with ⟨rfl, rfl⟩
        rcases Reading.run_updatedLeaf (Reading.call_eq_ok_iff.mp hupdated) with ⟨hid, hplain, rfl⟩
        refine ⟨⟨?_, ?_⟩, rfl⟩
        · rw [ids_leaf, ids_leaf, hid]
        · rw [allProper_leaf, allProper_leaf, hplain]
          exact fun h => h
      · rcases Prod.mk.inj (Except.ok.inj h) with ⟨rfl, rfl⟩
        exact ⟨.refl _, rfl⟩
  | group id inner children ih =>
      rw [modify] at h
      split at h
      · rcases Prod.mk.inj (Except.ok.inj h) with ⟨rfl, rfl⟩
        exact ⟨keepsFrame_group id _ _ (List.forall₂_same.mpr fun child _ => .refl child), rfl⟩
      · rcases Traversal.map_eq_ok_iff.mp h with ⟨⟨changed, rest⟩, hchanged, hresult⟩
        rcases Prod.mk.inj hresult with ⟨rfl, rfl⟩
        obtain ⟨hframes, rfl⟩ := keepsFrame_modifyAll
          (fun child hchild ids new left => ih child hchild) hchanged
        exact ⟨keepsFrame_group id _ _ hframes, rfl⟩

/-! ## Attaching -/

section Attach

variable (target : String) (relation : Relation) (added : Node) (ids : IdSupply)

/-- A leaf of the identifier is put into a new group. -/
theorem attach_leaf (l : Leaf) :
    attach target relation added ids (leaf l) =
      if l.condition.id = target then
        (group ids.mint.1 relation [leaf l, added], ids.mint.2)
      else (leaf l, ids) := by
  rw [attach]

/-- A group of the identifier is extended or put into a new group. -/
theorem attach_group (id : String) (inner : Relation) (children : List Node) :
    attach target relation added ids (group id inner children) =
      if id = target then
        if inner = relation then (group id inner (children ++ [added]), ids)
        else (group ids.mint.1 relation [group id inner children, added], ids.mint.2)
      else
        (group id inner (attachAll target relation added ids children).1,
          (attachAll target relation added ids children).2) := by
  rw [attach]

@[simp]
theorem attachAll_nil : attachAll target relation added ids [] = ([], ids) := by
  rw [attachAll]

/-- What is left of the supply after one child is handed to the next one. -/
theorem attachAll_cons (child : Node) (rest : List Node) :
    attachAll target relation added ids (child :: rest) =
      ((attach target relation added ids child).1 ::
          (attachAll target relation added (attach target relation added ids child).2 rest).1,
        (attachAll target relation added (attach target relation added ids child).2 rest).2) := by
  rw [attachAll]

end Attach

variable {target : String} {relation : Relation} {added : Node}

/-- Attaching to several nodes does nothing if it does nothing at any of them. -/
theorem attachAll_of_not_mem {children : List Node} {ids : IdSupply}
    (h : ∀ child ∈ children, attach target relation added ids child = (child, ids)) :
    attachAll target relation added ids children = (children, ids) := by
  induction children with
  | nil => simp
  | cons child rest ih =>
      rw [attachAll_cons, h child (by simp), ih fun other hother =>
        h other (List.mem_cons_of_mem _ hother)]

/-- What is attached to one of two lists of nodes is attached to the first one first. -/
theorem attachAll_append (first second : List Node) (ids : IdSupply) :
    attachAll target relation added ids (first ++ second) =
      let (left, middle) := attachAll target relation added ids first
      let (right, rest) := attachAll target relation added middle second
      (left ++ right, rest) := by
  induction first generalizing ids with
  | nil => simp
  | cons child rest ih => simp only [List.cons_append, attachAll_cons, ih]

/-- Nothing is attached where the identifier does not occur. -/
theorem attach_of_not_mem {node : Node} (h : target ∉ node.ids) (ids : IdSupply) :
    attach target relation added ids node = (node, ids) := by
  induction node with
  | leaf l =>
      rw [ids_leaf, List.mem_singleton] at h
      rw [attach_leaf, if_neg (Ne.symm h)]
  | group id inner children ih =>
      rw [not_mem_ids_group] at h
      have hchildren : ∀ child ∈ children, attach target relation added ids child = (child, ids) :=
        fun child hchild => ih child hchild (h.2 child hchild)
      rw [attach_group, if_neg h.1, attachAll_of_not_mem hchildren]

/-- Attaching to several nodes changes one after the other, and draws for each what it draws
there. -/
theorem forall₂_attachAll {motive : Node → Node → List String → Prop} {children : List Node}
    (h : ∀ child ∈ children, ∀ ids, ∃ count,
      (attach target relation added ids child).2 = ids.advance count ∧
        motive child (attach target relation added ids child).1 (ids.draws count))
    (ids : IdSupply) :
    ∃ changed count, attachAll target relation added ids children =
        (changed.map Prod.fst, ids.advance count) ∧
      List.Forall₂ (fun child new => motive child new.1 new.2) children changed ∧
        changed.flatMap Prod.snd = ids.draws count := by
  induction children generalizing ids with
  | nil => exact ⟨[], 0, by rw [attachAll_nil]; rfl, .nil, rfl⟩
  | cons child rest ih =>
      rw [List.forall_mem_cons] at h
      obtain ⟨first, hleft, hchild⟩ := h.1 ids
      obtain ⟨changed, second, hrest, hall, hdraws⟩ := ih h.2 (ids.advance first)
      refine ⟨((attach target relation added ids child).1, ids.draws first) :: changed,
        first + second, ?_, .cons hchild hall, ?_⟩
      · rw [attachAll_cons, hleft, hrest, ids.advance_advance]
        rfl
      · rw [List.flatMap_cons, hdraws, ids.draws_add]

/-- Everything that attaching can come to, with the identifiers that are drawn for it: a leaf of
another identifier stays as it is, a group of the identifier and of the relation is extended, any
other node of the identifier is put into a new group, and otherwise the children are changed.  What
holds in these cases holds of every node and what it becomes. -/
theorem attach_induction {motive : Node → Node → List String → Prop}
    (kept : ∀ l, l.condition.id ≠ target → motive (leaf l) (leaf l) [])
    (extended : ∀ children,
      motive (group target relation children) (group target relation (children ++ [added])) [])
    (wrapped : ∀ node id, node.id = target → motive node (group id relation [node, added]) [id])
    (inside : ∀ id inner children changed, id ≠ target →
      List.Forall₂ (fun child (new : Node × List String) => motive child new.1 new.2)
        children changed →
      motive (group id inner children) (group id inner (changed.map Prod.fst))
        (changed.flatMap Prod.snd))
    (node : Node) (ids : IdSupply) :
    motive node (attach target relation added ids node).1
      (ids.drawn (attach target relation added ids node).2) := by
  have hall : ∀ ids, ∃ count, (attach target relation added ids node).2 = ids.advance count ∧
      motive node (attach target relation added ids node).1 (ids.draws count) := by
    induction node with
    | leaf l =>
        intro ids
        rw [attach_leaf]
        split
        · next hid => exact ⟨1, ids.mint_eq.2, by rw [ids.mint_eq.1]; exact wrapped _ _ hid⟩
        · next hid => exact ⟨0, rfl, kept l hid⟩
    | group id inner children ih =>
        intro ids
        rw [attach_group]
        split
        · next hid =>
            subst hid
            split
            · next hinner =>
                subst hinner
                exact ⟨0, rfl, extended children⟩
            · exact ⟨1, ids.mint_eq.2, by rw [ids.mint_eq.1]; exact wrapped _ _ rfl⟩
        · next hid =>
            obtain ⟨changed, count, hchildren, hchanged, hdraws⟩ := forall₂_attachAll ih ids
            refine ⟨count, by rw [hchildren], ?_⟩
            rw [hchildren, ← hdraws]
            exact inside id inner children changed hid hchanged
  rcases hall ids with ⟨count, hleft, hnode⟩
  rwa [hleft, IdSupply.drawn_advance]

/-- A proper node that is attached to a proper one leaves it proper. -/
theorem allProper_attach {node : Node} (hnode : node.AllProper) (hadded : added.AllProper)
    (ids : IdSupply) : (attach target relation added ids node).1.AllProper := by
  refine attach_induction (motive := fun old new _ => old.AllProper → new.AllProper)
    ?kept ?extended ?wrapped ?inside node ids hnode
  case kept => exact fun l _ hl => hl
  case extended =>
    intro children hchildren
    rw [allProper_group] at hchildren ⊢
    refine ⟨by simp; omega, List.forall_mem_append.mpr ⟨hchildren.2, ?_⟩⟩
    rwa [List.forall_mem_singleton]
  case wrapped =>
    intro old id _ hold
    rw [allProper_group]
    exact ⟨by simp, by simpa using ⟨hold, hadded⟩⟩
  case inside =>
    intro id inner children changed _ hchanged hchildren
    rw [allProper_group] at hchildren ⊢
    rw [List.length_map, ← hchanged.length_eq, List.forall_mem_map]
    exact ⟨hchildren.1, Traversal.forall_mem_of_forall₂ hchanged hchildren.2⟩

end FilterQuery.Node
