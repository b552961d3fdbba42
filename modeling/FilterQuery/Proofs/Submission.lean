import FilterQuery.Proofs.Intake
import FilterQuery.Proofs.Record
import FilterQuery.Proofs.Tree.Restriction

/-!
# Submissions are read back

What is sent for a filter is a payload like any other, so it can be handed in again.  The filter
that was sent then asks for what was submitted, and the submission itself is read from its payload,
but for what its record does not say.

Main results:

- `conditions_of_usable?`: what can be used of a filter are the usable ones of its conditions.
- `run_filters_record`, `describes_record`: a filter is read from its record, as a part of a
  submission and as a payload.
- `submission_read_back`: what is submitted is read back, from data and from text.
-/

namespace FilterQuery

open Number

/-! ## What can be used of a filter -/

namespace Node

/-- A pruned node has the usable ones of its conditions. -/
theorem conditions_prune (node : Node) :
    node.prune.elim [] conditions = node.conditions.filter Condition.isUsable := by
  have hmap : node.prune.elim [] conditions =
      (node.prune.elim [] leaves).map Leaf.condition := by
    cases node.prune <;> rfl
  rw [hmap, prune_eq_restrict, leaves_restrict, conditions, List.filter_map]
  rfl

end Node

namespace Filter

variable {filter kept : Filter} {default : Relation}

/-- What can be used of a filter are the usable ones of its conditions. -/
theorem conditions_of_usable? (h : filter.usable? = some kept) :
    kept.conditions = filter.conditions.filter Condition.isUsable := by
  cases filter with
  | tree root =>
      rcases Option.map_eq_some_iff.mp h with ⟨pruned, hpruned, rfl⟩
      rcases Option.bind_eq_some_iff.mp hpruned with ⟨node, rfl, hprune⟩
      have hconditions := node.conditions_prune
      rw [hprune] at hconditions
      exact hconditions
  | rows rs =>
      have hfilter : (Rows.usable rs).map Row.toCondition =
          (rs.map Row.toCondition).filter Condition.isUsable := by
        rw [Rows.usable, List.filter_map]
        rfl
      rw [usable?] at h
      cases hkept : Rows.usable rs with
      | nil => simp [hkept] at h
      | cons row rest =>
          rw [hkept] at h hfilter
          rcases Option.some.inj h with rfl
          exact hfilter

/-- Something is left of what can be used. -/
theorem ne_empty_of_usable? (h : filter.usable? = some kept) : kept ≠ tree none := by
  cases filter with
  | tree root =>
      rcases Option.map_eq_some_iff.mp h with ⟨pruned, _, rfl⟩
      simp
  | rows rs =>
      rw [usable?] at h
      split at h
      · contradiction
      · rcases Option.some.inj h with rfl
        simp

/-- What is submitted of a filter, under which label and with which document. -/
theorem submit_eq_ok {label : Option String} {submission : Submission}
    (h : filter.submit default label = .ok (some submission)) :
    filter.usable? = some submission.filters ∧
      submission.filters.document default = .ok submission.document := by
  unfold submit at h
  cases hkept : filter.usable? with
  | none => simp [hkept] at h
  | some kept =>
      rw [hkept] at h
      rcases Traversal.map_eq_ok_iff.mp h with ⟨document, hdocument, hsubmission⟩
      rcases Option.some.inj hsubmission with rfl
      exact ⟨rfl, hdocument⟩

/-! ## Reading a filter from its record -/

/-- Whether the values of all conditions of a filter can be expressed in JSON. -/
def HoldsJson (filter : Filter) : Prop :=
  ∀ c ∈ filter.conditions, c.HoldsJson

/-- The values of all rows can be expressed in JSON if those of the filter can. -/
theorem HoldsJson.of_mem_rows {rs : List Row} (h : (rows rs).HoldsJson) :
    ∀ row ∈ rs, row.HoldsJson := by
  intro row hrow
  exact h row.toCondition (List.mem_map_of_mem hrow)

end Filter

/-- The record of a tree is an object that is neither a document nor has a root. -/
theorem Node.exists_record_fields (n : Node) :
    ∃ fields, Input.ofValue (n.record true) = .object fields ∧
      Input.get? "query" fields = none ∧ Input.get? "root" fields = none := by
  cases n with
  | leaf l =>
      rw [record, Condition.record_eq, Input.ofValue]
      exact ⟨_, rfl, Reading.get?_ofFields_recordFields_other (by decide),
        Reading.get?_ofFields_recordFields_other (by decide)⟩
  | group id relation children =>
      exact ⟨_, Reading.ofValue_record_group id relation children, rfl, rfl⟩

namespace Filter

variable {filter kept : Filter} {default : Relation} {ids : IdSupply}

/-- A filter is read from its record as a part of a submission. -/
theorem run_filters_record (hjson : filter.HoldsJson) (hsome : filter ≠ tree none) :
    (Reading.filters default (.ofValue filter.record)).run ids =
      .ok (filter.filled.plain, ids) := by
  cases filter with
  | tree root =>
      cases root with
      | none => contradiction
      | some n =>
          rcases n.exists_record_fields with ⟨fields, hfields, _⟩
          have hread := Reading.run_node_record default hjson ids
          change (Reading.filters default (.ofValue (n.record true))).run ids = _
          rw [hfields] at hread ⊢
          exact Reading.run_map_eq_ok_iff.mpr ⟨_, hread, rfl⟩
  | rows rs =>
      have hread := (Reading.run_rows_record hjson.of_mem_rows ids).1
      exact Reading.run_map_eq_ok_iff.mpr ⟨_, hread, rfl⟩

/-- A payload from which the record of a filter is loaded describes the filter. -/
theorem describes_record {raw : Input} (hjson : filter.HoldsJson) (hsome : filter ≠ tree none)
    (hunset : raw.isUnset = false)
    (hload : Intake.load? raw = .ok (some (.ofValue filter.record))) :
    Intake.Describes default ids raw filter.filled.plain := by
  refine ⟨hunset, _, ids, hload, ?_⟩
  cases filter with
  | tree root =>
      cases root with
      | none => contradiction
      | some n =>
          rcases n.exists_record_fields with ⟨fields, hfields, hquery, hroot⟩
          have hread := Reading.run_node_record default hjson ids
          change Intake.isDocument (.ofValue (n.record true)) = false ∧
            (Intake.filter default (.ofValue (n.record true))).run ids = _
          rw [hfields] at hread ⊢
          rw [Intake.isDocument, Intake.filter, hquery, hroot]
          exact ⟨rfl, Reading.run_map_eq_ok_iff.mpr ⟨_, hread, rfl⟩⟩
  | rows rs =>
      have hread := (Reading.run_rows_record hjson.of_mem_rows ids).2
      exact ⟨rfl, Reading.run_map_eq_ok_iff.mpr ⟨_, hread, rfl⟩⟩

/-- A payload from which the record of a filter is loaded asks for what the filter does. -/
theorem query_record {raw : Input} (hjson : filter.HoldsJson) (hsome : filter ≠ tree none)
    (hunset : raw.isUnset = false)
    (hload : Intake.load? raw = .ok (some (.ofValue filter.record))) :
    Intake.query default ids raw = filter.document default := by
  rw [Intake.query_of_describes (describes_record hjson hsome hunset hload), document_plain,
    document_filled]

/-- The record of a filter is not left out, and is loaded as it is. -/
theorem load?_record (hsome : filter ≠ tree none) :
    (Input.ofValue filter.record).isUnset = false ∧
      Intake.load? (.ofValue filter.record) = .ok (some (.ofValue filter.record)) := by
  cases filter with
  | tree root =>
      cases root with
      | none => contradiction
      | some n =>
          rcases n.exists_record_fields with ⟨fields, hfields, _⟩
          change (Input.ofValue (n.record true)).isUnset = false ∧
            Intake.load? (.ofValue (n.record true)) = .ok (some (.ofValue (n.record true)))
          rw [hfields]
          exact ⟨rfl, rfl⟩
  | rows rs => exact ⟨rfl, rfl⟩

/-- JSON can express the record of a filter whose values it can express. -/
theorem isJson_record (hjson : filter.HoldsJson) : filter.record.isJson = true := by
  cases filter with
  | tree root =>
      cases root with
      | none => rfl
      | some n => exact Node.isJson_record hjson
  | rows rs => exact Rows.isJson_records hjson.of_mem_rows

end Filter

/-- A text that denotes a value is not left out, and the value is loaded from it. -/
theorem Intake.load?_text {s : String} {value : Value} (h : Json.read s = .ok value) :
    (Input.text s).isUnset = false ∧ load? (.text s) = .ok (some (.ofValue value)) := by
  constructor
  · cases hempty : s.isEmpty with
    | false => exact hempty
    | true =>
        have hnone : s = "" := String.isEmpty_iff.mp hempty
        rw [hnone] at h
        contradiction
  · change load?.loadText s = _
    unfold load?.loadText
    rw [h]

/-! ## Reading a submission from its payload -/

namespace Submission

/-- The fields of the payload of a submission. -/
def fields (submission : Submission) : List (String × Value) :=
  ("filters", submission.filters.record) ::
    ((submission.label.map fun label => ("customLabel", Value.text label)).toList ++
      [("queryDSL", submission.document.exchangeable)])

theorem payload_eq (submission : Submission) : submission.payload = .object submission.fields :=
  rfl

/-- The payload says what is recorded of the filters and of the document. -/
theorem get?_fields (submission : Submission) :
    Value.get? "filters" submission.fields = some submission.filters.record ∧
      Value.get? "customLabel" submission.fields = submission.label.map Value.text ∧
      Value.get? "custom_label" submission.fields = none ∧
      Value.get? "queryDSL" submission.fields = some submission.document.exchangeable := by
  unfold fields
  cases submission.label with
  | none => exact ⟨rfl, rfl, rfl, rfl⟩
  | some label => exact ⟨rfl, rfl, rfl, rfl⟩

end Submission

namespace Reading

variable {default : Relation} {ids : IdSupply}

/-- A label is read from a payload, which says nothing of one that was not given. -/
theorem run_label_payload (submission : Submission) :
    (field ["customLabel", "custom_label"] (Input.ofFields submission.fields) (pure none)
      label).run ids = .ok (submission.label, ids) := by
  rcases submission.get?_fields with ⟨_, hlabel, hother, _⟩
  cases hgiven : submission.label with
  | none =>
      rw [hgiven] at hlabel
      have habsent : field ["customLabel", "custom_label"] (Input.ofFields submission.fields)
          (pure none) label = pure none := by
        apply field_of_get?_eq_none
        intro name hname
        rw [Input.get?_ofFields]
        rcases List.mem_pair.mp hname with rfl | rfl
        · rw [hlabel]
          rfl
        · rw [hother]
          rfl
      rw [habsent]
      rfl
  | some text =>
      rw [hgiven] at hlabel
      have hfound : Input.get? "customLabel" (Input.ofFields submission.fields) =
          some (.text text) := by
        rw [Input.get?_ofFields, hlabel]
        rfl
      exact run_field_of_get? hfound rfl

/-- A document is read from a payload. -/
theorem run_document_payload {submission : Submission} {clause : Option Clause}
    (h : submission.document = queryDocument clause) :
    (field ["queryDSL", "query_dsl"] (Input.ofFields submission.fields) (pure matchAll)
      document).run ids = .ok (submission.document.exchangeable, ids) := by
  rcases submission.get?_fields with ⟨_, _, _, hdocument⟩
  have hobject : ∃ fields, submission.document.exchangeable = .object fields := by
    rw [h]
    cases clause with
    | none => exact ⟨_, rfl⟩
    | some clause => exact ⟨_, rfl⟩
  rcases hobject with ⟨fields, hfields⟩
  rw [hfields] at hdocument ⊢
  have hfound : Input.get? "queryDSL" (Input.ofFields submission.fields) =
      some (.object (Input.ofFields fields)) := by
    rw [Input.get?_ofFields, hdocument]
    rfl
  refine run_field_of_get? hfound ?_
  rw [document, Input.toFields_ofFields]
  rfl

/-- A submission is read from its payload. -/
theorem run_submission_payload {submission : Submission} (hjson : submission.filters.HoldsJson)
    (hsome : submission.filters ≠ .tree none)
    (hdocument : submission.filters.document default = .ok submission.document) :
    (Reading.submission default (.ofValue submission.payload)).run ids =
      .ok ({ submission with
        filters := submission.filters.filled.plain
        document := submission.document.exchangeable }, ids) := by
  rcases Traversal.map_eq_ok_iff.mp hdocument with ⟨clause, _, hclause⟩
  rcases submission.get?_fields with ⟨hfilters, _⟩
  have hfound : Input.get? "filters" (Input.ofFields submission.fields) =
      some (.ofValue submission.filters.record) := by
    rw [Input.get?_ofFields, hfilters]
    rfl
  rw [Submission.payload_eq, Input.ofValue, Reading.submission]
  refine run_seq_ok ?_ (run_document_payload hclause.symm)
  refine run_seq_ok ?_ (run_label_payload submission)
  refine run_map_eq_ok_iff.mpr ⟨submission.filters.filled.plain, ?_, rfl⟩
  exact run_field_of_get? hfound (Filter.run_filters_record hjson hsome)

end Reading

/-! ## Every submission -/

/-- What is submitted is read back.  The filters in the payload, handed in as data or as a text that
denotes them, ask for the document of the submission; their own text is such a text if none of their
integers is too long.  The submission itself is read from its payload with the empty text in place
of nothing and plain conditions in place of the rows in a tree. -/
theorem submission_read_back {filter : Filter} {default : Relation} {label : Option String}
    {submission : Submission} (hjson : filter.HoldsJson)
    (hsubmit : filter.submit default label = .ok (some submission)) (ids : IdSupply) :
    ∃ fields sent, submission.payload = .object fields ∧
      Value.get? "filters" fields = some sent ∧
      Intake.query default ids (.ofValue sent) = .ok submission.document ∧
      (∀ s, Json.read s = .ok sent →
        Intake.query default ids (.text s) = .ok submission.document) ∧
      (sent.isWritable = true →
        Intake.query default ids (.text (Json.write sent)) = .ok submission.document) ∧
      (Reading.submission default (.ofValue submission.payload)).run ids =
        .ok ({ submission with
          filters := submission.filters.filled.plain
          document := submission.document.exchangeable }, ids) := by
  rcases Filter.submit_eq_ok hsubmit with ⟨husable, hdocument⟩
  have hkept : submission.filters.HoldsJson := by
    intro c hc
    rw [Filter.conditions_of_usable? husable] at hc
    exact hjson c (List.mem_filter.mp hc).1
  have hsome := Filter.ne_empty_of_usable? husable
  have hquery : ∀ raw : Input, raw.isUnset = false ∧
      Intake.load? raw = .ok (some (.ofValue submission.filters.record)) →
      Intake.query default ids raw = .ok submission.document := by
    rintro raw ⟨hunset, hload⟩
    rw [Filter.query_record hkept hsome hunset hload, hdocument]
  refine ⟨submission.fields, submission.filters.record, submission.payload_eq,
    submission.get?_fields.1, ?_, ?_, ?_, ?_⟩
  · exact hquery _ (Filter.load?_record hsome)
  · intro s hs
    exact hquery _ (Intake.load?_text hs)
  · intro hwritable
    have hreadable := Value.isReadable_of_isJson _ (Filter.isJson_record hkept) hwritable
    exact hquery _ (Intake.load?_text (Json.read_write hreadable))
  · exact Reading.run_submission_payload hkept hsome hdocument

/-- A tree with a bound and a value that are nothing, a row and a condition that was not begun is
submitted without the last one, and what is left is read back. -/
theorem nothing_and_row_are_read_back :
    let range (limit : Value) : Condition :=
      { id := "a", field := "bytes", operator := some .range, lower := { limit }
        upper := { inclusive := true, limit := .text "5" } }
    let present (value : Value) : Condition :=
      { id := "b", field := "user", operator := some .present, value }
    let listed : Condition :=
      { id := "c", field := "host", operator := some .oneOf
        value := .list [.text "web01", .text "2"] }
    let filter : Filter := .tree (some (.group "g" .and
      [.leaf (.plain (range .null)), .leaf (.plain { id := "d" }),
        .group "h" .or [.leaf (.plain (present .null)), .leaf (.row (listed.toRow (some .or)))]]))
    let sent : Filter := .tree (some (.group "g" .and
      [.leaf (.plain (range .null)),
        .group "h" .or [.leaf (.plain (present .null)), .leaf (.row (listed.toRow (some .or)))]]))
    let back : Filter := .tree (some (.group "g" .and
      [.leaf (.plain (range (.text ""))),
        .group "h" .or [.leaf (.plain (present (.text ""))), .leaf (.plain listed)]]))
    let document := queryDocument (some (.junction .and
      [.primitive (.range "bytes" none (some ⟨true, .int 5⟩)),
        .junction .or [.primitive (.present "user"),
          .primitive (.terms "host" [.text "web01", .int 2])]]))
    filter.HoldsJson ∧
      filter.submit .and (some "recent") = .ok (some ⟨sent, some "recent", document⟩) ∧
      Intake.query .and ⟨"f", 0⟩ (.text (Json.write sent.record)) = .ok document ∧
      (Reading.submission .and
        (.ofValue (Submission.mk sent (some "recent") document).payload)).run ⟨"f", 0⟩ =
          .ok (⟨back, some "recent", document⟩, ⟨"f", 0⟩) := by
  intro range present listed filter sent back document
  have hjson : filter.HoldsJson := by
    intro c hc
    have hmem : c ∈ [range .null, { id := "d" }, present .null, listed] := hc
    simp only [List.mem_cons, List.not_mem_nil, or_false] at hmem
    rcases hmem with rfl | rfl | rfl | rfl <;> exact ⟨rfl, rfl, rfl⟩
  have hsubmit : filter.submit .and (some "recent") =
      .ok (some ⟨sent, some "recent", document⟩) := by
    simp only [filter, sent, range, present, listed]
    rfl
  rcases submission_read_back hjson hsubmit ⟨"f", 0⟩ with
    ⟨fields, record, hpayload, hrecord, _, _, htext, hback⟩
  -- The record that is found in the payload is the one of the filter that was sent.
  obtain rfl : sent.record = record := by
    rcases Value.object.inj hpayload with rfl
    exact Option.some.inj hrecord
  exact ⟨hjson, hsubmit, htext rfl, hback⟩

/-- A row that stands in a tree is not what is read back of it: the payload says neither that it is
a row nor how it is joined. -/
theorem row_in_tree_not_read_back :
    let host : Condition :=
      { id := "a", field := "host.keyword", operator := some .equal, value := .text "web01" }
    let status : Condition :=
      { id := "b", field := "status", operator := some .notEqual, value := .text "500" }
    let filter : Filter := .tree (some (.group "g" .and
      [.leaf (.row (host.toRow (some .or))), .leaf (.plain status)]))
    ∃ submission back, filter.submit .and none = .ok (some submission) ∧
      (Reading.submission .and (.ofValue submission.payload)).run ⟨"f", 0⟩ =
        .ok (back, ⟨"f", 0⟩) ∧
      back.filters ≠ submission.filters.filled := by
  intro host status filter
  have hjson : filter.HoldsJson := by
    intro c hc
    have hmem : c ∈ [host, status] := hc
    simp only [List.mem_cons, List.not_mem_nil, or_false] at hmem
    rcases hmem with rfl | rfl <;> exact ⟨rfl, rfl, rfl⟩
  have hsubmit : filter.submit .and none = .ok (some ⟨filter, none, queryDocument
      (some (.junction .and [.primitive (.term "host.keyword" (.text "web01")),
        .negation (.term "status" (.int 500))]))⟩) := by
    simp only [filter, host, status]
    rfl
  refine ⟨_, _, hsubmit, Reading.run_submission_payload hjson (by simp [filter])
    (Filter.submit_eq_ok hsubmit).2, ?_⟩
  intro hsame
  have hrow : (Leaf.plain host) = .row (host.toRow (some .or)) := by
    injection hsame with hroot
    injection hroot with hgroup
    injection hgroup with _ _ hchildren
    injection hchildren with hfirst _
    injection hfirst
  contradiction

end FilterQuery
