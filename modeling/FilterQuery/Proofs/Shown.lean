import FilterQuery.Proofs.Reading
import FilterQuery.Reading.Node

/-!
# Objects that show their fields

A reading looks at the fields of an object by their spellings, and at each by the first one that the
object has.  What is read from an object is thus known from what the object shows under them.

Main results:

- `Input.find?_congr`: objects that have fields in common show the same under their names.
- `Reading.run_field_of_shows`: a field that is shown is read.
- `Reading.run_itemsFrom`: items that are all read give the list of what they are read as.
- `Reading.run_group_recordedIn`: a group is read from an object that shows every field of it.
-/

namespace FilterQuery

/-! ## Fields -/

namespace Input

/-- Whether an object shows some data as a field: under the first of the spellings that it has. -/
def Shows (spellings : List String) (fields : List (String × Input)) (input : Input) : Prop :=
  ∃ name, find? spellings fields = some (name, input)

/-- Objects that have the fields of some spellings in common show the same under them. -/
theorem find?_congr {spellings : List String} {first second : List (String × Input)}
    (h : ∀ name ∈ spellings, get? name first = get? name second) :
    find? spellings first = find? spellings second := by
  unfold find?
  induction spellings with
  | nil => rfl
  | cons name rest ih =>
      rw [List.forall_mem_cons] at h
      rw [List.findSome?_cons, List.findSome?_cons, h.1, ih h.2]

end Input

namespace Reading

variable {α : Type} {fields : List (String × Input)} {ids left : IdSupply}

/-- A field that is shown is read. -/
theorem run_field_of_shows {spellings : List String} {input : Input} {absent : Reading α}
    {read : Input → Reading α} {a : α} (h : Input.Shows spellings fields input)
    (hread : (read input).run ids = .ok (a, left)) :
    (field spellings fields absent read).run ids = .ok (a, left) := by
  rcases h with ⟨name, hfind⟩
  unfold field
  rw [hfind]
  exact run_within_eq_ok_iff.mpr hread

/-- A field that is there is read, whatever else it might be called. -/
theorem run_field_of_get? {name : String} {others : List String} {input : Input}
    {absent : Reading α} {read : Input → Reading α} {a : α}
    (h : Input.get? name fields = some input) (hread : (read input).run ids = .ok (a, left)) :
    (field (name :: others) fields absent read).run ids = .ok (a, left) :=
  run_field_of_shows ⟨name, by simp [Input.find?, h]⟩ hread

/-- A field that is missing under all of its names is not read. -/
theorem field_of_get?_eq_none {spellings : List String} {absent : Reading α}
    {read : Input → Reading α}
    (h : ∀ name ∈ spellings, Input.get? name fields = none) :
    field spellings fields absent read = absent := by
  have hfind : Input.find? spellings fields = none := by
    rw [Input.find?, List.findSome?_eq_none_iff]
    intro name hname
    rw [h name hname]
    rfl
  unfold field
  rw [hfind]

/-- A field is read alike from objects that have it in common. -/
theorem field_congr {spellings : List String} {first second : List (String × Input)}
    (h : ∀ name ∈ spellings, Input.get? name first = Input.get? name second) (absent : Reading α)
    (read : Input → Reading α) :
    field spellings first absent read = field spellings second absent read := by
  unfold field
  rw [Input.find?_congr h]

/-! ## Words -/

/-- An operator is read from its name. -/
theorem run_operator_name (op : Operator) (ids : IdSupply) :
    (operator (.text op.name)).run ids = .ok (some op, ids) := by
  unfold operator
  rw [Operator.resolve_name]
  rfl

/-- The kind of a bound is read from its word. -/
theorem run_inclusive_keyword (side : Side) (inclusive : Bool) (ids : IdSupply) :
    (Reading.inclusive side (.text (side.keyword inclusive))).run ids = .ok (inclusive, ids) := by
  have hword : (side.keyword inclusive).toLower = side.keyword inclusive := by
    cases side <;> cases inclusive <;> decide +kernel
  have hgiven : (Input.text (side.keyword inclusive)).isUnset = false := by
    cases side <;> cases inclusive <;> rfl
  rw [Reading.inclusive, hgiven]
  simp [hword]

/-- A relation is read from its word. -/
theorem run_relation_keyword (r : Relation) (ids : IdSupply) :
    (relation (.text r.keyword)).run ids = .ok (some r, ids) := by
  unfold relation
  rw [Relation.resolve_keyword]
  rfl

/-! ## Items -/

/-- Items that are all read give the list of what they are read as. -/
theorem run_itemsFrom {β : Type} {read : Input → Reading α} {data : β → Input} {result : β → α}
    {items : List β} {ids : IdSupply}
    (h : ∀ item ∈ items, (read (data item)).run ids = .ok (result item, ids)) (index : Nat) :
    (itemsFrom read index (items.map data)).run ids = .ok (items.map result, ids) := by
  induction items generalizing index with
  | nil => rfl
  | cons item rest ih =>
      have hitem : ((read (data item)).within (.item index)).run ids = .ok (result item, ids) :=
        run_within_eq_ok_iff.mpr (h item List.mem_cons_self)
      have hrest := ih (fun other hother => h other (List.mem_cons_of_mem _ hother)) (index + 1)
      exact run_seq_ok (run_map_eq_ok_iff.mpr ⟨_, hitem, rfl⟩) hrest

/-- Nodes are read one after the other. -/
theorem nodesFrom_eq_itemsFrom (default : Relation) (index : Nat) (items : List Input) :
    nodesFrom default index items = itemsFrom (node default) index items := by
  induction items generalizing index with
  | nil => simp [nodesFrom, itemsFrom]
  | cons item rest ih => rw [nodesFrom, itemsFrom, ih]

/-- The children of a group are read without a look at its other fields. -/
theorem childrenField_eq (default : Relation) (fields : List (String × Input)) :
    childrenField default fields =
      (Input.get? "children" fields).elim (pure []) fun input =>
        within (.field "children") (children default input) := by
  induction fields with
  | nil => rfl
  | cons field rest ih =>
      rcases field with ⟨key, input⟩
      by_cases hkey : key = "children" <;> simp [childrenField, Input.get?, hkey, ih]

/-! ## Kinds -/

/-- The word for a kind. -/
def Kind.word : Kind → String
  | condition => "condition"
  | group => "group"

/-- Whether an object is known to be of a kind: if it says of which one, it says so, and it has
children exactly if it is a group. -/
structure IsOfKind (kind : Kind) (fields : List (String × Input)) : Prop where
  stated : ∀ input ∈ Input.get? "kind" fields, input = .text kind.word
  shown : (Input.get? "children" fields).isSome = (kind == .group)

namespace IsOfKind

variable {kind : Kind}

/-- An object is taken for the kind that it is known to be of. -/
theorem kindOf?_eq (h : IsOfKind kind fields) : kindOf? fields = some kind := by
  unfold kindOf?
  cases hstated : Input.get? "kind" fields with
  | none => cases kind <;> simp [h.shown]
  | some input =>
      rcases h.stated input hstated with rfl
      cases kind <;> rfl

/-- The kind that it says, if any, is the right one. -/
theorem run_kind (h : IsOfKind kind fields) (ids : IdSupply) :
    (Reading.kind kind.word fields).run ids = .ok ((), ids) := by
  cases hstated : Input.get? "kind" fields with
  | none =>
      unfold Reading.kind
      rw [field_of_get?_eq_none (by simpa using hstated)]
      rfl
  | some input =>
      rcases h.stated input hstated with rfl
      refine run_field_of_get? hstated ?_
      simp only [if_true]
      rfl

end IsOfKind

/-! ## Groups -/

/-- Whether an object shows every field of a group, whose children are read from some items. -/
structure GroupRecordedIn (id : String) (relation : Relation) (items : List Input)
    (fields : List (String × Input)) : Prop where
  kind : IsOfKind .group fields
  id : Input.Shows ["id"] fields (.text id)
  relation : Input.Shows ["relation", "operator"] fields (.text relation.keyword)
  children : Input.get? "children" fields = some (.list items)

/-- A group is read from an object that shows every field of it, if its children are read from the
items that it has for them. -/
theorem run_group_recordedIn {default relation : Relation} {id : String} {data : Node → Input}
    {result : Node → Node} {children : List Node} {ids : IdSupply}
    (h : GroupRecordedIn id relation (children.map data) fields)
    (hchildren : ∀ child ∈ children,
      (node default (data child)).run ids = .ok (result child, ids)) :
    (node default (.object fields)).run ids =
      .ok (.group id relation (children.map result), ids) := by
  have hbelow : (childrenField default fields).run ids = .ok (children.map result, ids) := by
    rw [childrenField_eq, h.children, Option.elim_some, Reading.children, nodesFrom_eq_itemsFrom]
    exact run_within_eq_ok_iff.mpr (run_itemsFrom hchildren 0)
  simp only [node, h.kind.kindOf?_eq]
  refine run_within_eq_ok_iff.mpr (run_seq_ok ?_ hbelow)
  refine run_seq_ok ?_ (run_field_of_shows h.relation
    (run_map_eq_ok_iff.mpr ⟨some relation, run_relation_keyword relation ids, rfl⟩))
  refine run_seq_ok ?_ (run_field_of_shows h.id rfl)
  exact run_map_eq_ok_iff.mpr ⟨(), h.kind.run_kind ids, rfl⟩

end Reading

end FilterQuery
