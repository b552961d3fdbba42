import FilterQuery.Proofs.Rows.Update
import FilterQuery.Proofs.Shown

/-!
# Groups with their relations written out

The description of a group may have no relation, or one that is empty.  "And" stands in for the
first and the default of the settings for the second.  With these written out in every group, at any
depth, a description means the same.

Main results:

- `Input.statesRelations_stateRelations`: no group leaves its relation out any more.
- `Reading.node_stateRelations`: the description is read as before, with the same issues.
-/

namespace FilterQuery

/-- What was left out is resolved to no relation. -/
theorem Relation.resolve_of_isUnset {blank : Input} (h : blank.isUnset = true) :
    resolve blank = .ok none :=
  resolve_eq_ok_none_iff.mpr h

/-! ## Writing relations out -/

namespace Input

/-- The fields of a group with its relation written out: "and" where it is missing, and the default
where it is there but empty. -/
def stateRelation (default : Relation) (fields : List (String × Input)) : List (String × Input) :=
  match find? ["relation", "operator"] fields with
  | none => set "relation" (.text Relation.and.keyword) fields
  | some (name, input) =>
      if input.isUnset then set name (.text default.keyword) fields else fields

mutual

/-- The description of a node with the relation of every group in it written out. -/
def stateRelations (default : Relation) : Input → Input
  | object fields =>
      if Reading.kindOf? fields = some .group then
        object (stateRelation default (stateInFields default fields))
      else object fields
  | input => input

/-- The fields of a group with the relations below it written out. -/
def stateInFields (default : Relation) : List (String × Input) → List (String × Input)
  | [] => []
  | (key, input) :: rest =>
      if key = "children" then (key, stateInChildren default input) :: rest
      else (key, input) :: stateInFields default rest

/-- The children of a group with all relations written out. -/
def stateInChildren (default : Relation) : Input → Input
  | list items => list (stateInItems default items)
  | input => input

/-- The descriptions of several nodes with all relations written out. -/
def stateInItems (default : Relation) : List Input → List Input
  | [] => []
  | item :: rest => stateRelations default item :: stateInItems default rest

end

/-- Whether a group has a relation that is not left out. -/
def statesRelation (fields : List (String × Input)) : Bool :=
  match find? ["relation", "operator"] fields with
  | some (_, input) => !input.isUnset
  | none => false

mutual

/-- Whether no group in the description of a node leaves its relation out. -/
def statesRelations : Input → Bool
  | object fields =>
      Reading.kindOf? fields != some .group || (statesRelation fields && statedInFields fields)
  | _ => true

/-- Whether no group below one with these fields leaves its relation out. -/
def statedInFields : List (String × Input) → Bool
  | [] => true
  | (key, input) :: rest =>
      if key = "children" then statedInChildren input else statedInFields rest

/-- Whether no group among the children leaves its relation out. -/
def statedInChildren : Input → Bool
  | list items => statedInItems items
  | _ => true

/-- Whether no group among several nodes leaves its relation out. -/
def statedInItems : List Input → Bool
  | [] => true
  | item :: rest => item.statesRelations && statedInItems rest

end

/-! ## Fields that are kept -/

/-- What is found is a field under one of the spellings. -/
theorem get?_of_find? {spellings : List String} {fields : List (String × Input)} {name : String}
    {input : Input} (h : find? spellings fields = some (name, input)) :
    name ∈ spellings ∧ get? name fields = some input := by
  rcases List.exists_of_findSome?_eq_some h with ⟨spelling, hspelling, hfound⟩
  rcases Option.map_eq_some_iff.mp hfound with ⟨value, hvalue, hpair⟩
  rcases Prod.mk.inj hpair with ⟨rfl, rfl⟩
  exact ⟨hspelling, hvalue⟩

/-- A field that gets a new value is found under the same spelling. -/
theorem find?_set_of_find? {spellings : List String} {fields : List (String × Input)}
    {name : String} {old : Input} (h : find? spellings fields = some (name, old)) (new : Input) :
    find? spellings (set name new fields) = some (name, new) := by
  induction spellings with
  | nil => contradiction
  | cons spelling rest ih =>
      rw [find?, List.findSome?_cons] at h ⊢
      cases hspelling : get? spelling fields with
      | some value =>
          rw [hspelling] at h
          rcases Prod.mk.inj (Option.some.inj h) with ⟨rfl, rfl⟩
          rw [get?_set_self]
          rfl
      | none =>
          rw [hspelling] at h
          have hne : name ≠ spelling := by
            rintro rfl
            rw [(get?_of_find? h).2] at hspelling
            contradiction
          rw [get?_set_of_ne hne, hspelling]
          exact ih h

variable {default : Relation} {fields : List (String × Input)} {name : String}

/-- Writing out the relation of a group leaves its other fields alone. -/
theorem get?_stateRelation (h : name ∉ ["relation", "operator"]) :
    get? name (stateRelation default fields) = get? name fields := by
  unfold stateRelation
  split
  · refine get?_set_of_ne ?_ _ _
    rintro rfl
    exact h List.mem_cons_self
  · next found input hfind =>
      split
      · refine get?_set_of_ne ?_ _ _
        rintro rfl
        exact h (get?_of_find? hfind).1
      · rfl

/-- Writing out the relations below a group leaves its other fields alone. -/
theorem get?_stateInFields (h : name ≠ "children") :
    get? name (stateInFields default fields) = get? name fields := by
  induction fields with
  | nil => simp [stateInFields]
  | cons field rest ih =>
      rcases field with ⟨key, input⟩
      by_cases hkey : key = "children"
      · simp [stateInFields, get?, hkey, Ne.symm h]
      · simp [stateInFields, get?, hkey, ih]

/-- The children of a group have their relations written out. -/
theorem get?_children_stateInFields :
    get? "children" (stateInFields default fields) =
      (get? "children" fields).map (stateInChildren default) := by
  induction fields with
  | nil => simp [stateInFields, get?]
  | cons field rest ih =>
      rcases field with ⟨key, input⟩
      by_cases hkey : key = "children"
      · simp [stateInFields, get?, hkey]
      · simp [stateInFields, get?, hkey, ih]

/-- What an object describes stays the same when relations are written out. -/
theorem kindOf?_stated (default : Relation) (fields : List (String × Input)) :
    Reading.kindOf? (stateRelation default (stateInFields default fields)) =
      Reading.kindOf? fields := by
  unfold Reading.kindOf?
  rw [get?_stateRelation (by decide), get?_stateRelation (by decide),
    get?_stateInFields (by decide), get?_children_stateInFields, Option.isSome_map]

/-! ## Nothing is left out -/

/-- A group does not leave a relation out that was written out for it. -/
theorem statesRelation_stateRelation (default : Relation) (fields : List (String × Input)) :
    statesRelation (stateRelation default fields) = true := by
  have hword (r : Relation) : (text r.keyword).isUnset = false := by cases r <;> rfl
  unfold stateRelation
  split
  · simp [statesRelation, find?, hword]
  · next name input hfind =>
      split
      · simp [statesRelation, find?_set_of_find? hfind, hword]
      · next hstated => simp [statesRelation, hfind, hstated]

/-- Only the children of a group count for what is below it. -/
theorem statedInFields_eq (fields : List (String × Input)) :
    statedInFields fields = (get? "children" fields).all statedInChildren := by
  induction fields with
  | nil => rfl
  | cons field rest ih =>
      rcases field with ⟨key, input⟩
      by_cases hkey : key = "children" <;> simp [statedInFields, get?, hkey, ih]

mutual

/-- With all relations written out no group leaves its relation out. -/
theorem statesRelations_stateRelations (default : Relation) :
    ∀ input, (stateRelations default input).statesRelations = true
  | .object fields => by
      rw [stateRelations]
      split
      · rw [statesRelations, statesRelation_stateRelation, statedInFields_eq,
          get?_stateRelation (by decide), ← statedInFields_eq,
          statedInFields_stateInFields default fields]
        simp
      · next hother => simp [statesRelations, hother]
  | .null | .bool _ | .int _ | .float _ | .text _ | .bytes _ | .list _ | .node _ => by
      simp [stateRelations, statesRelations]

/-- Nor does any group below one with these fields. -/
theorem statedInFields_stateInFields (default : Relation) :
    ∀ fields, statedInFields (stateInFields default fields) = true
  | [] => rfl
  | (key, input) :: rest => by
      rw [stateInFields]
      split
      · next hkey =>
          rw [statedInFields, if_pos hkey, statedInChildren_stateInChildren default input]
      · next hkey =>
          rw [statedInFields, if_neg hkey, statedInFields_stateInFields default rest]

/-- Nor does any group among the children. -/
theorem statedInChildren_stateInChildren (default : Relation) :
    ∀ input, statedInChildren (stateInChildren default input) = true
  | .list items => by
      rw [stateInChildren, statedInChildren, statedInItems_stateInItems default items]
  | .null | .bool _ | .int _ | .float _ | .text _ | .bytes _ | .object _ | .node _ => by
      simp [stateInChildren, statedInChildren]

/-- Nor does any group among several nodes. -/
theorem statedInItems_stateInItems (default : Relation) :
    ∀ items, statedInItems (stateInItems default items) = true
  | [] => rfl
  | item :: rest => by
      rw [stateInItems, statedInItems, statesRelations_stateRelations default item,
        statedInItems_stateInItems default rest, Bool.and_self]

end

end Input

/-! ## Nothing else changes -/

namespace Reading

variable {α : Type}

/-- The word of a relation is read as that relation. -/
theorem relation_keyword (r : Relation) : relation (.text r.keyword) = pure (some r) := by
  rw [relation, Relation.resolve_keyword]

/-- What was left out is read as no relation. -/
theorem relation_of_isUnset {blank : Input} (h : blank.isUnset = true) :
    relation blank = pure none := by
  rw [relation, Relation.resolve_of_isUnset h]

/-- A group has the relation that is written out for it. -/
theorem groupRelation_stateRelation (default : Relation) (fields : List (String × Input)) :
    groupRelation default (Input.stateRelation default fields) = groupRelation default fields := by
  unfold groupRelation field Input.stateRelation
  cases hfind : Input.find? ["relation", "operator"] fields with
  | none =>
      have hstated (input : Input) : Input.find? ["relation", "operator"]
          (Input.set "relation" input fields) = some ("relation", input) := by
        simp [Input.find?]
      simp only [hstated, relation_keyword]
      rfl
  | some found =>
      rcases found with ⟨name, input⟩
      dsimp only
      by_cases hunset : input.isUnset = true
      · simp only [hunset, if_true, Input.find?_set_of_find? hfind, relation_keyword,
          relation_of_isUnset hunset]
        rfl
      · simp only [hunset, Bool.false_eq_true, if_false, hfind]

/-- A group means the same with the relations written out if its children do. -/
theorem node_stated {default : Relation} {fields : List (String × Input)}
    (hgroup : kindOf? fields = some .group)
    (hchildren : childrenField default (Input.stateInFields default fields) =
      childrenField default fields) :
    node default (.object (Input.stateRelation default (Input.stateInFields default fields))) =
      node default (.object fields) := by
  have hother (name : String) (h : name ∉ ["relation", "operator", "children"]) :
      Input.get? name (Input.stateRelation default (Input.stateInFields default fields)) =
        Input.get? name fields := by
    rw [Input.get?_stateRelation (by simp_all), Input.get?_stateInFields (by simp_all)]
  generalize hstated : Input.stateRelation default (Input.stateInFields default fields) = stated
    at hother
  have hsame : kindOf? stated = some .group := by
    rw [← hstated, Input.kindOf?_stated, hgroup]
  have hkind : kind "group" stated = kind "group" fields :=
    field_congr (by simpa using hother "kind" (by decide)) _ _
  have hid : identifier stated = identifier fields :=
    field_congr (by simpa using hother "id" (by decide)) _ _
  have hrelation : groupRelation default stated = groupRelation default fields := by
    rw [← hstated, groupRelation_stateRelation]
    exact field_congr (by simp [Input.get?_stateInFields]) _ _
  have hbelow : childrenField default stated = childrenField default fields := by
    rw [← hstated, childrenField_eq, Input.get?_stateRelation (by decide), ← childrenField_eq,
      hchildren]
  simp only [node, hgroup, hsame, hkind, hid, hrelation, hbelow]

mutual

/-- The description of a node means the same when the relations in it are written out. -/
theorem node_stateRelations (default : Relation) :
    ∀ input, node default (Input.stateRelations default input) = node default input
  | .object fields => by
      rw [Input.stateRelations]
      split
      · next hgroup => exact node_stated hgroup (childrenField_stateInFields default fields)
      · rfl
  | .null | .bool _ | .int _ | .float _ | .text _ | .bytes _ | .list _ | .node _ => by
      simp [Input.stateRelations]

/-- So do the fields of a group. -/
theorem childrenField_stateInFields (default : Relation) :
    ∀ fields, childrenField default (Input.stateInFields default fields) =
      childrenField default fields
  | [] => rfl
  | (key, input) :: rest => by
      rw [Input.stateInFields]
      split
      · next hkey =>
          rw [childrenField, childrenField, if_pos hkey, if_pos hkey,
            children_stateInChildren default input]
      · next hkey =>
          rw [childrenField, childrenField, if_neg hkey, if_neg hkey,
            childrenField_stateInFields default rest]

/-- So do the children of a group. -/
theorem children_stateInChildren (default : Relation) :
    ∀ input, children default (Input.stateInChildren default input) = children default input
  | .list items => by
      rw [Input.stateInChildren, children, children, nodesFrom_stateInItems default 0 items]
  | .null | .bool _ | .int _ | .float _ | .text _ | .bytes _ | .object _ | .node _ => by
      simp [Input.stateInChildren]

/-- So do the descriptions of several nodes. -/
theorem nodesFrom_stateInItems (default : Relation) :
    ∀ index items, nodesFrom default index (Input.stateInItems default items) =
      nodesFrom default index items
  | _, [] => rfl
  | index, item :: rest => by
      rw [Input.stateInItems, nodesFrom, nodesFrom, node_stateRelations default item,
        nodesFrom_stateInItems default (index + 1) rest]

end

end Reading

end FilterQuery
