import FilterQuery.Proofs.Record

/-!
# Reading full records

A full record has a field for everything, so a filter is read back from it with every identifier
and every value, those that are nothing included.  A reading looks at fields by their spellings
only: the same filter is read if the record leaves it to the children which nodes are groups, and
if it calls the relation of a group by its other name.

Main results:

- `Reading.run_condition_recordedIn`: a condition is read from an object that shows every field.
- `Reading.run_node_respelled`: a filter is read from its record in any spelling that keeps the
  fields apart.
- `Node.full_record_read_back`: so it is from the record as it stands and from those spellings.
-/

namespace FilterQuery

open Number

/-! ## Conditions -/

/-- Whether an object shows every field of a condition. -/
structure Condition.RecordedIn (c : Condition) (fields : List (String × Input)) : Prop where
  kind : Reading.IsOfKind .condition fields
  id : Input.Shows ["id"] fields (.text c.id)
  field : Input.Shows ["field"] fields (.text c.field)
  operator : Input.Shows ["operator"] fields
    (.ofValue (c.operator.elim .null fun op => .text op.name))
  value : Input.Shows ["value"] fields (.ofValue c.value)
  lowerKind : Input.Shows ["minOperator", "min_operator"] fields
    (.text (Side.lower.keyword c.lower.inclusive))
  lower : Input.Shows ["minValue", "min_value"] fields (.ofValue c.lower.limit)
  upperKind : Input.Shows ["maxOperator", "max_operator"] fields
    (.text (Side.upper.keyword c.upper.inclusive))
  upper : Input.Shows ["maxValue", "max_value"] fields (.ofValue c.upper.limit)

namespace Reading

variable {fields : List (String × Input)}

/-- A value is read as it is. -/
theorem run_value (v : Value) (ids : IdSupply) :
    (value (.ofValue v)).run ids = .ok (v, ids) := by
  rw [value, Input.toValue_ofValue]
  rfl

/-- An operator is read from what is recorded of it, also if it is missing. -/
theorem run_operator_recorded (op : Option Operator) (ids : IdSupply) :
    (operator (.ofValue (op.elim .null fun op => .text op.name))).run ids = .ok (op, ids) := by
  cases op with
  | none => rfl
  | some op => exact run_operator_name op ids

/-- A bound is read from an object that shows it. -/
theorem run_bound_of_shows {side : Side} {bound : Bound}
    {inclusiveSpellings limitSpellings : List String}
    (hinclusive : Input.Shows inclusiveSpellings fields (.text (side.keyword bound.inclusive)))
    (hlimit : Input.Shows limitSpellings fields (.ofValue bound.limit)) (ids : IdSupply) :
    (Reading.bound side inclusiveSpellings limitSpellings fields).run ids = .ok (bound, ids) := by
  -- Taken apart, the bound is seen to be its constructor applied to what is read.
  rcases bound with ⟨inclusive, limit⟩
  refine run_seq_ok ?_ (run_field_of_shows hlimit (run_value limit ids))
  refine run_map_eq_ok_iff.mpr ⟨inclusive, ?_, rfl⟩
  exact run_field_of_shows hinclusive (run_inclusive_keyword side inclusive ids)

/-- A condition is read from an object that shows every field of it. -/
theorem run_condition_recordedIn {c : Condition} (h : c.RecordedIn fields) (ids : IdSupply) :
    (condition fields).run ids = .ok (c, ids) := by
  rcases c with ⟨id, name, op, value, lower, upper⟩
  refine run_seq_ok ?_ (run_bound_of_shows h.upperKind h.upper ids)
  refine run_seq_ok ?_ (run_bound_of_shows h.lowerKind h.lower ids)
  refine run_seq_ok ?_ (run_field_of_shows h.value (run_value value ids))
  refine run_seq_ok ?_ (run_field_of_shows h.operator (run_operator_recorded op ids))
  refine run_seq_ok ?_ (run_field_of_shows h.field rfl)
  refine run_seq_ok ?_ (run_field_of_shows h.id rfl)
  exact run_map_eq_ok_iff.mpr ⟨(), h.kind.run_kind ids, rfl⟩

/-- So it is where a node is read. -/
theorem run_node_recordedIn {default : Relation} {c : Condition} (h : c.RecordedIn fields)
    (ids : IdSupply) :
    (node default (.object fields)).run ids = .ok (.leaf (.plain c), ids) := by
  simp only [node, h.kind.kindOf?_eq]
  refine run_within_eq_ok_iff.mpr (run_map_eq_ok_iff.mpr ⟨c, ?_, rfl⟩)
  exact run_condition_recordedIn h ids

end Reading

/-! ## Other spellings of a record -/

namespace Value

mutual

/-- The record of a node with the fields of every node in it written in another way. -/
def respell (f : List (String × Value) → List (String × Value)) : Value → Value
  | object fields => object (f (respellInFields f fields))
  | value => value

/-- The fields of a node, with the nodes below it written in another way. -/
def respellInFields (f : List (String × Value) → List (String × Value)) :
    List (String × Value) → List (String × Value)
  | [] => []
  | (key, value) :: rest =>
      if key = "children" then (key, respellInChildren f value) :: rest
      else (key, value) :: respellInFields f rest

/-- The children of a group, written in another way. -/
def respellInChildren (f : List (String × Value) → List (String × Value)) : Value → Value
  | list items => list (respellItems f items)
  | value => value

/-- The records of several nodes, written in another way. -/
def respellItems (f : List (String × Value) → List (String × Value)) : List Value → List Value
  | [] => []
  | item :: rest => item.respell f :: respellItems f rest

end

/-- The nodes of a list are written one by one. -/
theorem respellItems_eq_map (f : List (String × Value) → List (String × Value))
    (items : List Value) : respellItems f items = items.map (respell f) := by
  induction items with
  | nil => rfl
  | cons item rest ih => rw [respellItems, List.map_cons, ih]

mutual

/-- A record that is written in no other way stays the same. -/
theorem respell_id : ∀ value : Value, value.respell id = value
  | .object fields => by rw [respell, respellInFields_id fields, id]
  | .null | .bool _ | .int _ | .float _ | .text _ | .bytes _ | .list _ => by simp [respell]

/-- So do the fields of a node. -/
theorem respellInFields_id : ∀ fields : List (String × Value), respellInFields id fields = fields
  | [] => rfl
  | (key, value) :: rest => by
      rw [respellInFields, respellInChildren_id value, respellInFields_id rest, ite_self]

/-- So do the children of a group. -/
theorem respellInChildren_id : ∀ value : Value, respellInChildren id value = value
  | .list items => by rw [respellInChildren, respellItems_id items]
  | .null | .bool _ | .int _ | .float _ | .text _ | .bytes _ | .object _ => by
      simp [respellInChildren]

/-- So do several nodes. -/
theorem respellItems_id : ∀ items : List Value, respellItems id items = items
  | [] => rfl
  | item :: rest => by rw [respellItems, respell_id item, respellItems_id rest]

end

/-- The fields of a node without the one that says its kind. -/
def withoutKind (fields : List (String × Value)) : List (String × Value) :=
  fields.filter fun (name, _) => name ≠ "kind"

/-- The fields of a node with the relation of a group under its other name. -/
def withOperator (fields : List (String × Value)) : List (String × Value) :=
  fields.map fun (name, value) => (if name = "relation" then "operator" else name, value)

/-- Without the kind there is none. -/
theorem get?_kind_withoutKind (fields : List (String × Value)) :
    get? "kind" (withoutKind fields) = none := by
  induction fields with
  | nil => rfl
  | cons field rest ih =>
      rcases field with ⟨name, value⟩
      by_cases hname : name = "kind"
      · simpa [withoutKind, hname] using ih
      · simpa [withoutKind, hname, get?] using ih

/-- All other fields stay. -/
theorem get?_withoutKind {key : String} (hkey : key ≠ "kind") (fields : List (String × Value)) :
    get? key (withoutKind fields) = get? key fields := by
  induction fields with
  | nil => rfl
  | cons field rest ih =>
      rcases field with ⟨name, value⟩
      by_cases hname : name = "kind"
      · subst hname
        simpa [withoutKind, get?, Ne.symm hkey] using ih
      · by_cases hsame : name = key
        · simp [withoutKind, get?, hsame, hkey]
        · simpa [withoutKind, hname, get?, hsame] using ih

end Value

/-- The fields in the full record of a condition. -/
def Condition.recordedFields (c : Condition) : List (String × Value) :=
  c.fields.map fun (name, value) => (recordName name, value)

/-- The fields in the full record of a group. -/
def Node.groupFields (id : String) (relation : Relation) (items : List Value) :
    List (String × Value) :=
  [("kind", .text "group"), ("id", .text id), ("relation", .text relation.keyword),
    ("children", .list items)]

/-! ## Spellings that show everything -/

namespace Input

/-- All fields but the kind are shown without it. -/
theorem get?_withoutKind {key : String} (hkey : key ≠ "kind") (fields : List (String × Value)) :
    get? key (ofFields (Value.withoutKind fields)) = get? key (ofFields fields) := by
  rw [get?_ofFields, get?_ofFields, Value.get?_withoutKind hkey]

/-- What is shown under other names than the kind is shown without it. -/
theorem Shows.withoutKind {spellings : List String} {fields : List (String × Value)}
    {input : Input} (h : Shows spellings (ofFields fields) input) (hkind : "kind" ∉ spellings) :
    Shows spellings (ofFields (Value.withoutKind fields)) input := by
  have hsame : find? spellings (ofFields (Value.withoutKind fields)) =
      find? spellings (ofFields fields) := by
    refine find?_congr fun name hname => get?_withoutKind ?_ fields
    rintro rfl
    exact hkind hname
  rcases h with ⟨name, hfind⟩
  exact ⟨name, hsame.trans hfind⟩

end Input

/-- What is known to be of a kind still is if it does not say so. -/
theorem Reading.IsOfKind.withoutKind {kind : Kind} {fields : List (String × Value)}
    (h : IsOfKind kind (Input.ofFields fields)) :
    IsOfKind kind (Input.ofFields (Value.withoutKind fields)) where
  stated input hinput := by
    rw [Input.get?_ofFields, Value.get?_kind_withoutKind] at hinput
    contradiction
  shown := by
    rw [Input.get?_withoutKind (by decide)]
    exact h.shown

/-- A way to write the fields of nodes that shows all of them. -/
structure IsRespelling (f : List (String × Value) → List (String × Value)) : Prop where
  condition : ∀ c : Condition, c.RecordedIn (Input.ofFields (f c.recordedFields))
  group : ∀ id relation items, Reading.GroupRecordedIn id relation (Input.ofItems items)
    (Input.ofFields (f (Node.groupFields id relation items)))

namespace IsRespelling

/-- Full records show all fields as they stand. -/
theorem refl : IsRespelling id where
  condition c :=
    { kind := ⟨by rintro _ ⟨⟩; rfl, rfl⟩
      id := ⟨"id", rfl⟩
      field := ⟨"field", rfl⟩
      operator := ⟨"operator", rfl⟩
      value := ⟨"value", rfl⟩
      lowerKind := ⟨"minOperator", rfl⟩
      lower := ⟨"minValue", rfl⟩
      upperKind := ⟨"maxOperator", rfl⟩
      upper := ⟨"maxValue", rfl⟩ }
  group id relation items :=
    { kind := ⟨by rintro _ ⟨⟩; rfl, rfl⟩
      id := ⟨"id", rfl⟩
      relation := ⟨"relation", rfl⟩
      children := rfl }

/-- So they do with the relations under their other name. -/
theorem withOperator : IsRespelling Value.withOperator where
  -- The record of a condition has no relation that could be renamed.
  condition c := refl.condition c
  group id relation items :=
    { kind := ⟨by rintro _ ⟨⟩; rfl, rfl⟩
      id := ⟨"id", rfl⟩
      relation := ⟨"operator", rfl⟩
      children := rfl }

/-- So they do if the kinds are left out besides. -/
theorem withoutKind {f : List (String × Value) → List (String × Value)} (h : IsRespelling f) :
    IsRespelling (Value.withoutKind ∘ f) where
  condition c :=
    have shown := h.condition c
    { kind := shown.kind.withoutKind
      id := shown.id.withoutKind (by decide)
      field := shown.field.withoutKind (by decide)
      operator := shown.operator.withoutKind (by decide)
      value := shown.value.withoutKind (by decide)
      lowerKind := shown.lowerKind.withoutKind (by decide)
      lower := shown.lower.withoutKind (by decide)
      upperKind := shown.upperKind.withoutKind (by decide)
      upper := shown.upper.withoutKind (by decide) }
  group id relation items :=
    have shown := h.group id relation items
    { kind := shown.kind.withoutKind
      id := shown.id.withoutKind (by decide)
      relation := shown.relation.withoutKind (by decide)
      children := (Input.get?_withoutKind (by decide) _).trans shown.children }

end IsRespelling

/-! ## Reading full records back -/

/-- The full record of a condition shows its values as they are. -/
theorem Condition.record_false {c : Condition} (hjson : c.HoldsJson) :
    c.record false = .object c.recordedFields := by
  have hoperator : (c.operator.elim Value.null fun op => .text op.name).isJson = true := by
    cases c.operator <;> rfl
  have hfields : Value.areFieldsJson c.recordedFields = true := by
    simp [recordedFields, fields, Value.areFieldsJson, hoperator, hjson.value, hjson.lower,
      hjson.upper, Value.isJson]
  exact congrArg Value.object (Value.exchangeableFields_eq_self _ hfields)

namespace Node

/-- A filter of plain conditions has one record, whether it stands alone or in a tree. -/
theorem recordAlone_eq_record {n : Node} (hplain : ∀ l ∈ n.leaves, l.isPlain = true)
    (sparse : Bool) : n.recordAlone sparse = n.record sparse := by
  cases n with
  | leaf l =>
      have hleaf : l.isPlain = true := hplain l (by simp [leaves_leaf])
      cases l with
      | plain c => rfl
      | row r => contradiction
  | group id relation children => rfl

/-- The record of a group in another spelling. -/
theorem respell_record_group (f : List (String × Value) → List (String × Value)) (id : String)
    (relation : Relation) (children : List Node) :
    ((group id relation children).record false).respell f =
      .object (f (groupFields id relation
        (children.map fun child => (child.record false).respell f))) := by
  rw [record, records_eq_map]
  simp [Value.respell, Value.respellInFields, Value.respellInChildren, groupFields,
    Value.respellItems_eq_map, Function.comp_def]

end Node

namespace Reading

/-- A filter is read from its record in any spelling that shows all fields. -/
theorem run_node_respelled {f : List (String × Value) → List (String × Value)}
    (hf : IsRespelling f) (default : Relation) {n : Node}
    (hplain : ∀ l ∈ n.leaves, l.isPlain = true) (hjson : ∀ c ∈ n.conditions, c.HoldsJson)
    (ids : IdSupply) :
    (node default (.ofValue ((n.record false).respell f))).run ids = .ok (n, ids) := by
  induction n with
  | leaf l =>
      have hleaf : l.isPlain = true := hplain l (by simp [Node.leaves_leaf])
      cases l with
      | row r => contradiction
      | plain c =>
          have hrecord := Condition.record_false (hjson c (by simp [Node.conditions_leaf]))
          have hrespelled : (c.record false).respell f = .object (f c.recordedFields) := by
            rw [hrecord]
            rfl
          rw [Node.record, Leaf.condition_plain, hrespelled]
          exact run_node_recordedIn (hf.condition c) ids
  | group id relation children ih =>
      have hbelow : ∀ child ∈ children,
          (node default (.ofValue ((child.record false).respell f))).run ids =
            .ok (child, ids) := by
        intro child hchild
        refine ih child hchild (fun l hl => hplain l ?_) (fun c hc => hjson c ?_)
        · rw [Node.leaves_group]
          exact List.mem_flatMap.mpr ⟨child, hchild, hl⟩
        · rw [Node.conditions_group]
          exact List.mem_flatMap.mpr ⟨child, hchild, hc⟩
      have hshown := hf.group id relation
        (children.map fun child => (child.record false).respell f)
      rw [Input.ofItems_eq_map, List.map_map] at hshown
      have hgroup := run_group_recordedIn hshown hbelow
      rw [List.map_id'] at hgroup
      rw [Node.respell_record_group]
      exact hgroup

end Reading

/-- A filter of plain conditions is read back from its full record with every identifier and every
value.  It does not matter whether the record says what is a group, nor by which of its names it
calls the relation of one. -/
theorem Node.full_record_read_back (default : Relation) {n : Node}
    (hplain : ∀ l ∈ n.leaves, l.isPlain = true) (hjson : ∀ c ∈ n.conditions, c.HoldsJson)
    (ids : IdSupply) :
    let reads := fun data : Value => Reading.call (Reading.node default (.ofValue data)) ids
    let full := n.recordAlone false
    reads full = .ok (n, ids) ∧
      reads (full.respell Value.withoutKind) = .ok (n, ids) ∧
      reads (full.respell Value.withOperator) = .ok (n, ids) ∧
      reads (full.respell (Value.withoutKind ∘ Value.withOperator)) = .ok (n, ids) := by
  have hread {f : List (String × Value) → List (String × Value)} (hf : IsRespelling f) :
      Reading.call (Reading.node default (.ofValue ((n.record false).respell f))) ids =
        .ok (n, ids) :=
    Reading.call_eq_ok_iff.mpr (Reading.run_node_respelled hf default hplain hjson ids)
  have hsame := hread .refl
  rw [Value.respell_id] at hsame
  rw [recordAlone_eq_record hplain]
  exact ⟨hsame, hread IsRespelling.refl.withoutKind, hread .withOperator,
    hread IsRespelling.withOperator.withoutKind⟩

/-- A group without children, a group of one child, values that are nothing, an integer of any size
and a value that looks like a group come back from a record without kinds, in which the relations
are called operators. -/
theorem Node.bare_record_read_back :
    let begun : Condition := { id := "a", value := .null, upper := { limit := .int (10 ^ 5000) } }
    let host : Condition := { id := "b", field := "host", operator := some .equal
                              value := .object [("kind", .text "group"), ("children", .list [])] }
    let filter : Node := .group "g" .or
      [.group "h" .and [], .group "i" .and [.leaf (.plain begun)], .leaf (.plain host)]
    let bare := Value.object
      [("id", .text "g"), ("operator", .text "OR"), ("children", .list
        [.object [("id", .text "h"), ("operator", .text "AND"), ("children", .list [])],
        .object [("id", .text "i"), ("operator", .text "AND"), ("children", .list
          [.object [("id", .text "a"), ("field", .text ""), ("operator", .null), ("value", .null),
            ("minOperator", .text "gt"), ("minValue", .text ""), ("maxOperator", .text "lt"),
            ("maxValue", .int (10 ^ 5000))]])],
        .object [("id", .text "b"), ("field", .text "host"), ("operator", .text "is"),
          ("value", .object [("kind", .text "group"), ("children", .list [])]),
          ("minOperator", .text "gt"), ("minValue", .text ""), ("maxOperator", .text "lt"),
          ("maxValue", .text "")]])]
    let ids : IdSupply := { source := "node", next := 0 }
    (∀ l ∈ filter.leaves, l.isPlain = true) ∧ (∀ c ∈ filter.conditions, c.HoldsJson) ∧
      (filter.recordAlone false).respell (Value.withoutKind ∘ Value.withOperator) = bare ∧
      Reading.call (Reading.node .or (.ofValue bare)) ids = .ok (filter, ids) := by
  intro begun host filter bare ids
  have hplain : ∀ l ∈ filter.leaves, l.isPlain = true := by
    simp [filter, leaves_group, leaves_leaf]
  have hjson : ∀ c ∈ filter.conditions, c.HoldsJson := by
    have hbegun : begun.HoldsJson := ⟨rfl, rfl, rfl⟩
    have hhost : host.HoldsJson := ⟨by decide, rfl, rfl⟩
    simp [filter, conditions_group, conditions_leaf, hbegun, hhost]
  have hbare : (filter.recordAlone false).respell (Value.withoutKind ∘ Value.withOperator) =
      bare := rfl
  have hread := (full_record_read_back .or hplain hjson ids).2.2.2
  rw [hbare] at hread
  exact ⟨hplain, hjson, hbare, hread⟩

end FilterQuery
