import FilterQuery.Proofs.Filled
import FilterQuery.Proofs.Json.RoundTrip
import FilterQuery.Proofs.Shown

/-!
# Reading records

What is read from the sparse record of a filter is that filter, but for two things that a record
does not say: a value that was nothing comes back as the empty text, and a row that stands in a tree
comes back as the plain condition that it states.

Main results:

- `get?_recordFields`: a record has the fields that hold something, under their names in records.
- `Reading.run_condition_record`, `Reading.run_row_record`: conditions and rows are read from their
  records.
- `Reading.run_node_record`: so is a tree.
- `Node.isJson_record`, `Rows.isJson_records`: JSON can express these records.
-/

namespace FilterQuery

open Number

/-- Whether the values of a condition can be expressed in JSON. -/
structure Condition.HoldsJson (c : Condition) : Prop where
  value : c.value.isJson = true
  lower : c.lower.limit.isJson = true
  upper : c.upper.limit.isJson = true

/-! ## The fields of a sparse record -/

/-- The fields of a sparse record. -/
def recordFields (fields : List (String × Value)) : List (String × Value) :=
  Value.exchangeableFields
    ((fields.filter fun (_, value) => !value.isNull).map fun (name, value) =>
      (recordName name, value))

/-- What a sparse record shows of a value. -/
def Value.shown? (value : Value) : Option Value :=
  if value.isNull then none else some value.exchangeable

/-- The names of fields in records. -/
def recordNames (fields : List (String × Value)) : List String :=
  fields.map fun field => recordName field.1

/-- A field comes first if it holds something, and is left out otherwise. -/
theorem recordFields_cons (name : String) (value : Value) (rest : List (String × Value)) :
    recordFields ((name, value) :: rest) =
      (value.shown?.map (recordName name, ·)).toList ++ recordFields rest := by
  unfold recordFields Value.shown?
  cases h : value.isNull with
  | true => simp [h]
  | false => simp [h, Value.exchangeableFields]

/-- Nothing stands in a record under the name of no field. -/
theorem get?_recordFields_of_not_mem {key : String} {fields : List (String × Value)}
    (h : key ∉ recordNames fields) : Value.get? key (recordFields fields) = none := by
  induction fields with
  | nil => rfl
  | cons field rest ih =>
      rcases field with ⟨name, value⟩
      rw [recordNames, List.map_cons, List.mem_cons, not_or] at h
      rw [recordFields_cons]
      cases value.shown? with
      | none => exact ih h.2
      | some shown =>
          change Value.get? key ((recordName name, shown) :: recordFields rest) = none
          rw [Value.get?_cons_of_ne (Ne.symm h.1)]
          exact ih h.2

/-- A field stands in a record under its name there, if it holds something. -/
theorem get?_recordFields {fields : List (String × Value)} (hnodup : (recordNames fields).Nodup)
    {name : String} {value : Value} (h : (name, value) ∈ fields) :
    Value.get? (recordName name) (recordFields fields) = value.shown? := by
  induction fields with
  | nil => contradiction
  | cons field rest ih =>
      rcases field with ⟨other, old⟩
      rw [recordNames, List.map_cons, List.nodup_cons] at hnodup
      rw [recordFields_cons]
      rcases List.mem_cons.mp h with heq | hrest
      · rcases Prod.mk.inj heq with ⟨rfl, rfl⟩
        cases value.shown? with
        | none => exact get?_recordFields_of_not_mem hnodup.1
        | some shown => exact Value.get?_cons_self _ _ _
      · have hne : recordName other ≠ recordName name := by
          intro heq
          apply hnodup.1
          change recordName other ∈ recordNames rest
          rw [heq]
          exact List.mem_map.mpr ⟨(name, value), hrest, rfl⟩
        cases old.shown? with
        | none => exact ih hnodup.2 hrest
        | some shown =>
            change Value.get? (recordName name) ((recordName other, shown) :: recordFields rest) =
              value.shown?
            rw [Value.get?_cons_of_ne hne]
            exact ih hnodup.2 hrest

namespace Value

/-- What JSON can express is shown as it is, unless it is nothing. -/
theorem shown?_of_isJson {value : Value} (h : value.isJson = true) :
    (value = null ∧ value.shown? = none) ∨
      (value.filled = value ∧ value.shown? = some value) := by
  cases value with
  | null => exact Or.inl ⟨rfl, rfl⟩
  | _ => exact Or.inr ⟨rfl, congrArg some (exchangeable_eq_self _ h)⟩

end Value

/-! ## Fields of conditions and rows -/

namespace Condition

/-- The fields of a condition together with what is recorded as its relation. -/
def fieldsWith (c : Condition) (relation : Value) : List (String × Value) :=
  c.fields ++ [("relation", relation)]

/-- The names of the fields of a row in records. -/
def rowNames : List String :=
  ["kind", "id", "field", "operator", "value", "minOperator", "minValue", "maxOperator", "maxValue",
    "relation"]

theorem recordNames_fieldsWith (c : Condition) (relation : Value) :
    recordNames (c.fieldsWith relation) = rowNames :=
  rfl

/-- The record of a condition is that of a row without a relation. -/
theorem record_eq (c : Condition) :
    c.record true = .object (recordFields (c.fieldsWith .null)) := by
  have hnone : recordFields (c.fieldsWith .null) = recordFields c.fields := by
    unfold recordFields fieldsWith
    rw [List.filter_append]
    congr 2
    exact List.append_nil _
  rw [hnone]
  rfl

end Condition

theorem Row.record_eq (row : Row) :
    row.record true =
      .object (recordFields (row.toCondition.fieldsWith (Relation.field row.relation))) :=
  rfl

namespace Reading

variable {α : Type} {ids left : IdSupply} {a : α}

/-! ## Reading the fields of a record -/

section Fields

variable {c : Condition} {relation : Value} {name : String} {spellings : List String}

/-- A field that holds something is found in a record. -/
theorem get?_ofFields_recordFields {value : Value} (hmem : (name, value) ∈ c.fieldsWith relation)
    (hshown : value.shown? = some value) :
    Input.get? (recordName name) (Input.ofFields (recordFields (c.fieldsWith relation))) =
      some (.ofValue value) := by
  have hnodup : (recordNames (c.fieldsWith relation)).Nodup := by
    rw [Condition.recordNames_fieldsWith]
    decide
  rw [Input.get?_ofFields, get?_recordFields hnodup hmem, hshown]
  rfl

/-- A field that holds nothing is missing from a record. -/
theorem get?_ofFields_recordFields_null (hmem : (name, .null) ∈ c.fieldsWith relation) :
    Input.get? (recordName name) (Input.ofFields (recordFields (c.fieldsWith relation))) =
      none := by
  have hnodup : (recordNames (c.fieldsWith relation)).Nodup := by
    rw [Condition.recordNames_fieldsWith]
    decide
  rw [Input.get?_ofFields, get?_recordFields hnodup hmem]
  rfl

/-- No record has a field of any other name. -/
theorem get?_ofFields_recordFields_other {key : String} (h : key ∉ Condition.rowNames) :
    Input.get? key (Input.ofFields (recordFields (c.fieldsWith relation))) = none := by
  rw [← c.recordNames_fieldsWith relation] at h
  rw [Input.get?_ofFields, get?_recordFields_of_not_mem h]
  rfl

/-- A field that holds nothing is not read from a record. -/
theorem field_recordFields_null (absent : Reading α) (read : Input → Reading α)
    (hmem : (name, .null) ∈ c.fieldsWith relation)
    (hothers : ∀ other ∈ spellings, other ∉ Condition.rowNames) :
    field (recordName name :: spellings) (Input.ofFields (recordFields (c.fieldsWith relation)))
      absent read = absent := by
  apply field_of_get?_eq_none
  intro key hkey
  rcases List.mem_cons.mp hkey with rfl | hother
  · exact get?_ofFields_recordFields_null hmem
  · exact get?_ofFields_recordFields_other (hothers key hother)

/-- A value is read from a record, where nothing comes back as the empty text. -/
theorem run_value_recordFields {value : Value} (hmem : (name, value) ∈ c.fieldsWith relation)
    (hjson : value.isJson = true) (hothers : ∀ other ∈ spellings, other ∉ Condition.rowNames)
    (ids : IdSupply) :
    (field (recordName name :: spellings)
      (Input.ofFields (recordFields (c.fieldsWith relation))) (pure (.text "")) Reading.value).run
        ids = .ok (value.filled, ids) := by
  rcases Value.shown?_of_isJson hjson with ⟨rfl, _⟩ | ⟨hfilled, hshown⟩
  · rw [field_recordFields_null _ _ hmem hothers]
    rfl
  · have hread : (Reading.value (.ofValue value)).run ids = .ok (value.filled, ids) := by
      rw [Reading.value, Input.toValue_ofValue, hfilled]
      rfl
    exact run_field_of_get? (get?_ofFields_recordFields hmem hshown) hread

/-- A text is read from a record. -/
theorem run_text_recordFields {s : String} (hmem : (name, .text s) ∈ c.fieldsWith relation)
    {absent : Reading String} (ids : IdSupply) :
    (field [recordName name] (Input.ofFields (recordFields (c.fieldsWith relation))) absent
      text).run ids = .ok (s, ids) :=
  run_field_of_get? (get?_ofFields_recordFields hmem rfl) rfl

/-- An operator is read from a record, which says nothing of one that is missing. -/
theorem run_operator_recordFields (c : Condition) (relation : Value) (ids : IdSupply) :
    (field ["operator"] (Input.ofFields (recordFields (c.fieldsWith relation))) (pure none)
      operator).run ids = .ok (c.operator, ids) := by
  have hmem : ("operator", c.operator.elim Value.null fun op => .text op.name) ∈
      c.fieldsWith relation := by
    simp [Condition.fieldsWith, Condition.fields]
  cases hop : c.operator with
  | none =>
      rw [hop] at hmem
      have habsent := field_recordFields_null (pure none) operator hmem (List.forall_mem_nil _)
      exact congrArg (Reading.run · ids) habsent
  | some op =>
      rw [hop] at hmem
      exact run_field_of_get? (get?_ofFields_recordFields hmem rfl) (run_operator_name op ids)

/-- A bound is read from a record. -/
theorem run_bound_recordFields {side : Side} {bound : Bound} {inclusiveName limitName : String}
    {inclusiveSpellings limitSpellings : List String}
    (hinclusive : (inclusiveName, .text (side.keyword bound.inclusive)) ∈ c.fieldsWith relation)
    (hlimit : (limitName, bound.limit) ∈ c.fieldsWith relation)
    (hjson : bound.limit.isJson = true)
    (hothers : ∀ other ∈ limitSpellings, other ∉ Condition.rowNames) (ids : IdSupply) :
    (Reading.bound side (recordName inclusiveName :: inclusiveSpellings)
      (recordName limitName :: limitSpellings)
      (Input.ofFields (recordFields (c.fieldsWith relation)))).run ids =
        .ok (bound.filled, ids) := by
  refine run_seq_ok ?_ (run_value_recordFields hlimit hjson hothers ids)
  refine run_map_eq_ok_iff.mpr ⟨bound.inclusive, ?_, rfl⟩
  exact run_field_of_get? (get?_ofFields_recordFields hinclusive rfl)
    (run_inclusive_keyword side bound.inclusive ids)

end Fields

/-! ## Conditions and rows -/

/-- The kind that a record states is that of a condition. -/
theorem run_kind_recordFields (c : Condition) (relation : Value) (ids : IdSupply) :
    (kind "condition" (Input.ofFields (recordFields (c.fieldsWith relation)))).run ids =
      .ok ((), ids) := by
  have hmem : ("kind", Value.text "condition") ∈ c.fieldsWith relation := by
    simp [Condition.fieldsWith, Condition.fields]
  exact run_field_of_get? (get?_ofFields_recordFields hmem rfl) rfl

/-- A condition is read from its record, and from that of a row. -/
theorem run_condition_record {c : Condition} (hjson : c.HoldsJson) (relation : Value)
    (ids : IdSupply) :
    (condition (Input.ofFields (recordFields (c.fieldsWith relation)))).run ids =
      .ok (c.filled, ids) := by
  have hmem : ∀ field ∈ c.fields, field ∈ c.fieldsWith relation := fun field hfield =>
    List.mem_append_left _ hfield
  have hid : ("id", Value.text c.id) ∈ c.fields := by simp [Condition.fields]
  have hfield : ("field", Value.text c.field) ∈ c.fields := by simp [Condition.fields]
  have hvalue : ("value", c.value) ∈ c.fields := by simp [Condition.fields]
  have hminOperator : ("min_operator", Value.text (Side.lower.keyword c.lower.inclusive)) ∈
      c.fields := by simp [Condition.fields]
  have hminValue : ("min_value", c.lower.limit) ∈ c.fields := by simp [Condition.fields]
  have hmaxOperator : ("max_operator", Value.text (Side.upper.keyword c.upper.inclusive)) ∈
      c.fields := by simp [Condition.fields]
  have hmaxValue : ("max_value", c.upper.limit) ∈ c.fields := by simp [Condition.fields]
  refine run_seq_ok ?_ (run_bound_recordFields (hmem _ hmaxOperator) (hmem _ hmaxValue) hjson.upper
    (by decide) ids)
  refine run_seq_ok ?_ (run_bound_recordFields (hmem _ hminOperator) (hmem _ hminValue) hjson.lower
    (by decide) ids)
  refine run_seq_ok ?_ (run_value_recordFields (hmem _ hvalue) hjson.value
    (List.forall_mem_nil _) ids)
  refine run_seq_ok ?_ (run_operator_recordFields c relation ids)
  refine run_seq_ok ?_ (run_text_recordFields (hmem _ hfield) ids)
  refine run_seq_ok ?_ (run_text_recordFields (hmem _ hid) ids)
  exact run_map_eq_ok_iff.mpr ⟨(), run_kind_recordFields c relation ids, rfl⟩

/-- A relation is read from a record, which says nothing of one that is missing. -/
theorem run_relation_recordFields (row : Row) (ids : IdSupply) :
    (field ["relation", "logic"]
      (Input.ofFields (recordFields (row.fieldsWith (Relation.field row.relation)))) (pure none)
      relation).run ids = .ok (row.relation, ids) := by
  have hmem : ("relation", Relation.field row.relation) ∈
      row.fieldsWith (Relation.field row.relation) := by
    simp [Condition.fieldsWith]
  generalize row.relation = stated at hmem ⊢
  cases stated with
  | none =>
      have hother : ∀ other ∈ ["logic"], other ∉ Condition.rowNames := by decide
      have habsent := field_recordFields_null (pure none) relation hmem hother
      exact congrArg (Reading.run · ids) habsent
  | some r =>
      exact run_field_of_get? (get?_ofFields_recordFields hmem rfl) (run_relation_keyword r ids)

/-- A row is read from its record. -/
theorem run_rowFields_record {row : Row} (hjson : row.HoldsJson) (ids : IdSupply) :
    (rowFields (Input.ofFields
      (recordFields (row.fieldsWith (Relation.field row.relation))))).run ids =
        .ok (row.filled, ids) :=
  run_seq_ok (run_map_eq_ok_iff.mpr ⟨_, run_condition_record hjson _ ids, rfl⟩)
    (run_relation_recordFields row ids)

end Reading

/-! ## Lists of records -/

/-- The items of a list are data from outside one by one. -/
theorem Input.ofItems_eq_map (items : List Value) : ofItems items = items.map ofValue := by
  induction items with
  | nil => rfl
  | cons item rest ih => rw [ofItems, List.map_cons, ih]

namespace Reading

variable {ids : IdSupply}

/-- Plain data is no row that was built before. -/
theorem builtRow?_ofValue (value : Value) : builtRow? (.ofValue value) = none := by
  cases value <;> rfl

/-- Plain data is read as it stands. -/
theorem restated_ofValue (value : Value) : restated (.ofValue value) = .ofValue value := by
  cases value <;> rfl

/-- Rows in plain data are read alike, whether or not conditions may stand among them. -/
theorem mixedItems_ofItems (items : List Value) :
    mixedItems (Input.ofItems items) = itemsFrom row 0 (Input.ofItems items) := by
  cases items with
  | nil => rfl
  | cons item rest =>
      have hbuilt : (Input.ofItems (item :: rest)).mapM builtRow? = none := by
        rw [Input.ofItems, List.mapM_cons, builtRow?_ofValue]
        rfl
      have hrestated : (Input.ofItems (item :: rest)).map restated =
          Input.ofItems (item :: rest) := by
        simp only [Input.ofItems_eq_map, List.map_map, Function.comp_def, restated_ofValue]
      rw [mixedItems, hbuilt, hrestated]

/-- A row is read from its record. -/
theorem run_row_record {r : Row} (hjson : r.HoldsJson) (ids : IdSupply) :
    (row (.ofValue (r.record true))).run ids = .ok (r.filled, ids) := by
  rw [Row.record_eq, Input.ofValue]
  exact run_rowFields_record hjson ids

/-- Rows are read from their records, also where the list may hold plain conditions. -/
theorem run_rows_record {rs : List Row} (hjson : ∀ row ∈ rs, row.HoldsJson) (ids : IdSupply) :
    (rows (.ofValue (.list (rs.map (Row.record true))))).run ids =
        .ok (rs.map Row.filled, ids) ∧
      (mixedRows (.ofValue (.list (rs.map (Row.record true))))).run ids =
        .ok (rs.map Row.filled, ids) := by
  have hrows : (itemsFrom row 0 (Input.ofItems (rs.map (Row.record true)))).run ids =
      .ok (rs.map Row.filled, ids) := by
    have hdata : Input.ofItems (rs.map (Row.record true)) =
        rs.map fun row => .ofValue (row.record true) := by
      rw [Input.ofItems_eq_map, List.map_map]
      rfl
    rw [hdata]
    exact run_itemsFrom (fun r hr => run_row_record (hjson r hr) ids) 0
  refine ⟨hrows, ?_⟩
  change (mixedItems (Input.ofItems (rs.map (Row.record true)))).run ids = _
  rw [mixedItems_ofItems]
  exact hrows

/-! ## Trees -/

/-- A record of a condition is taken for one. -/
theorem kindOf?_recordFields (c : Condition) (relation : Value) :
    kindOf? (Input.ofFields (recordFields (c.fieldsWith relation))) = some .condition := by
  have hmem : ("kind", Value.text "condition") ∈ c.fieldsWith relation := by
    simp [Condition.fieldsWith, Condition.fields]
  have hkind : Input.get? "kind" (Input.ofFields (recordFields (c.fieldsWith relation))) =
      some (.text "condition") := get?_ofFields_recordFields hmem rfl
  unfold kindOf?
  rw [hkind]
  rfl

/-- The fields in the record of a group, as data from outside. -/
def groupFields (id : String) (relation : Relation) (children : List Node) :
    List (String × Input) :=
  [("kind", .text "group"), ("id", .text id), ("relation", .text relation.keyword),
    ("children", .list (children.map fun child => .ofValue (child.record true)))]

theorem ofValue_record_group (id : String) (relation : Relation) (children : List Node) :
    Input.ofValue ((Node.group id relation children).record true) =
      .object (groupFields id relation children) := by
  rw [Node.record, Node.records_eq_map]
  simp [Input.ofValue, Input.ofFields, groupFields, Input.ofItems_eq_map, Function.comp_def]

/-- A group is read from its record if its children are read from theirs. -/
theorem run_group_record {default : Relation} {id : String} {relation : Relation}
    {children : List Node} {result : Node → Node}
    (h : ∀ child ∈ children,
      (node default (.ofValue (child.record true))).run ids = .ok (result child, ids)) :
    (node default (.ofValue ((Node.group id relation children).record true))).run ids =
      .ok (.group id relation (children.map result), ids) := by
  have hshown : GroupRecordedIn id relation (children.map fun child => .ofValue (child.record true))
      (groupFields id relation children) :=
    { kind := ⟨by rintro _ ⟨⟩; rfl, rfl⟩
      id := ⟨"id", rfl⟩
      relation := ⟨"relation", rfl⟩
      children := rfl }
  rw [ofValue_record_group]
  exact run_group_recordedIn hshown h

/-- A tree is read from its record, with plain conditions in place of rows. -/
theorem run_node_record (default : Relation) {n : Node} (hjson : ∀ c ∈ n.conditions, c.HoldsJson)
    (ids : IdSupply) :
    (node default (.ofValue (n.record true))).run ids =
      .ok ((n.mapLeaves Leaf.filled).mapLeaves Leaf.toPlain, ids) := by
  rw [Node.mapLeaves_mapLeaves]
  induction n with
  | leaf l =>
      have hleaf : l.condition.HoldsJson := hjson l.condition (by simp [Node.conditions_leaf])
      have hread := run_condition_record hleaf .null ids
      have hplain : (Leaf.toPlain ∘ Leaf.filled) l = .plain l.condition.filled := by
        rw [Function.comp_apply, Leaf.toPlain, Leaf.condition_filled]
      rw [Node.record, Condition.record_eq, Input.ofValue, node, kindOf?_recordFields,
        Node.mapLeaves, hplain]
      exact run_within_eq_ok_iff.mpr (run_map_eq_ok_iff.mpr ⟨_, hread, rfl⟩)
  | group id relation children ih =>
      rw [Node.mapLeaves_group]
      refine run_group_record fun child hchild => ih child hchild fun c hc => hjson c ?_
      rw [Node.conditions_group]
      exact List.mem_flatMap.mpr ⟨child, hchild, hc⟩

end Reading

/-! ## Records in JSON -/

/-- The fields of a record that is left have different names if all fields have. -/
theorem sublist_map_fst_recordFields (fields : List (String × Value)) :
    ((recordFields fields).map Prod.fst).Sublist (recordNames fields) := by
  induction fields with
  | nil => exact List.Sublist.refl []
  | cons field rest ih =>
      rcases field with ⟨name, value⟩
      rw [recordFields_cons]
      cases value.shown? with
      | none => exact ih.cons _
      | some shown => exact ih.cons_cons _

/-- JSON can express a record of fields that it can express. -/
theorem areFieldsJson_recordFields {fields : List (String × Value)}
    (h : ∀ field ∈ fields, field.2.isJson = true) :
    Value.areFieldsJson (recordFields fields) = true := by
  induction fields with
  | nil => rfl
  | cons field rest ih =>
      rcases field with ⟨name, value⟩
      have hvalue : value.isJson = true := h (name, value) List.mem_cons_self
      have hrest := ih fun other hother => h other (List.mem_cons_of_mem _ hother)
      rw [recordFields_cons]
      rcases Value.shown?_of_isJson hvalue with ⟨_, hshown⟩ | ⟨_, hshown⟩
      · rw [hshown]
        exact hrest
      · rw [hshown]
        exact Bool.and_eq_true_iff.mpr ⟨hvalue, hrest⟩

/-- JSON can express the record of a condition, or of a row, whose values it can express. -/
theorem Condition.isJson_recordFields {c : Condition} (hjson : c.HoldsJson) {relation : Value}
    (hrelation : relation.isJson = true) :
    (Value.object (recordFields (c.fieldsWith relation))).isJson = true := by
  have hnodup : (recordNames (c.fieldsWith relation)).Nodup := by
    rw [recordNames_fieldsWith]
    decide
  have hoperator : (c.operator.elim Value.null fun op => .text op.name).isJson = true := by
    cases c.operator <;> rfl
  have hfields : ∀ field ∈ c.fieldsWith relation, field.2.isJson = true := by
    simp only [fieldsWith, fields, List.cons_append, List.nil_append, List.forall_mem_cons]
    exact ⟨rfl, rfl, rfl, hoperator, hjson.value, rfl, hjson.lower, rfl, hjson.upper, hrelation,
      List.forall_mem_nil _⟩
  rw [Value.isJson, Bool.and_eq_true, decide_eq_true_eq]
  exact ⟨(sublist_map_fst_recordFields _).nodup hnodup, areFieldsJson_recordFields hfields⟩

/-- JSON can express several values if it can express each of them. -/
theorem Value.areJson_iff (items : List Value) :
    areJson items = true ↔ ∀ item ∈ items, item.isJson = true := by
  induction items with
  | nil => simp [areJson]
  | cons item rest ih => rw [areJson, Bool.and_eq_true, List.forall_mem_cons, ih]

/-- JSON can express the record of a tree whose values it can express. -/
theorem Node.isJson_record {n : Node} (hjson : ∀ c ∈ n.conditions, c.HoldsJson) :
    (n.record true).isJson = true := by
  induction n with
  | leaf l =>
      rw [record, Condition.record_eq]
      exact Condition.isJson_recordFields (hjson l.condition (by simp [conditions_leaf])) rfl
  | group id relation children ih =>
      have hchildren : Value.areJson (children.map (record true)) = true := by
        rw [Value.areJson_iff, List.forall_mem_map]
        intro child hchild
        refine ih child hchild fun c hc => hjson c ?_
        rw [conditions_group]
        exact List.mem_flatMap.mpr ⟨child, hchild, hc⟩
      rw [record, records_eq_map]
      simp [Value.isJson, Value.areFieldsJson, hchildren]

/-- JSON can express the records of rows whose values it can express. -/
theorem Rows.isJson_records {rs : List Row} (hjson : ∀ row ∈ rs, row.HoldsJson) :
    (Value.list (rs.map (Row.record true))).isJson = true := by
  rw [Value.isJson, Value.areJson_iff, List.forall_mem_map]
  intro row hrow
  rw [Row.record_eq]
  refine Condition.isJson_recordFields (hjson row hrow) ?_
  cases row.relation <;> rfl

end FilterQuery
