import FilterQuery.Filter
import FilterQuery.Node.Record
import FilterQuery.Reading.Node
import FilterQuery.Rows.Edit
import FilterQuery.Tree.Normal

/-!
# Submissions

A confirmed filter is submitted as a whole: what can be used of it, a label, and the query
document for it.  Where nothing can be used there is nothing to submit.
-/

namespace FilterQuery

/-- A filter that was confirmed. -/
structure Submission where
  filters : Filter
  label : Option String
  document : Value

namespace Filter

/-- What can be used of a filter, if anything can.  Of rows the first one loses its relation. -/
def usable? : Filter → Option Filter
  | tree root => (root.bind Node.prune).map fun kept => tree (some kept)
  | rows rs =>
      match Rows.usable rs with
      | [] => none
      | kept => some (rows (Rows.withBase kept))

/-- The submission of a filter under a label, unless nothing in it can be used. -/
def submit (default : Relation) (label : Option String) (filter : Filter) :
    Except Number.DigitLimit (Option Submission) :=
  match filter.usable? with
  | none => .ok none
  | some kept =>
      (kept.document default).map fun document =>
        some { filters := kept, label := label.filter fun text => !text.isEmpty, document }

/-- The sparse record of a filter. -/
def record : Filter → Value
  | tree root => root.elim .null (Node.record true)
  | rows rs => .list (rs.map (Row.record true))

end Filter

/-- A submission as it is sent: a sparse record. -/
def Submission.payload (submission : Submission) : Value :=
  .object (("filters", submission.filters.record) ::
    ((submission.label.map fun label => ("customLabel", Value.text label)).toList ++
      [("queryDSL", submission.document.exchangeable)]))

namespace Reading

/-- Rows as a list, otherwise a node. -/
def filters (default : Relation) : Input → Reading Filter
  | .list items => Filter.rows <$> rows (.list items)
  | input => (fun n => Filter.tree (some n)) <$> node default input

/-- A label, which may be left out. -/
def label : Input → Reading (Option String)
  | .null => pure none
  | input => some <$> text input

/-- A document: any object. -/
def document : Input → Reading Value
  | .object fields => pure (.object (Input.toFields fields))
  | _ => fail .notObject

/-- A submission. -/
def submission (default : Relation) : Input → Reading Submission
  | .object fields =>
      Submission.mk
        <$> field ["filters"] fields (within (.field "filters") (fail .notObject)) (filters default)
        <*> field ["customLabel", "custom_label"] fields (pure none) label
        <*> field ["queryDSL", "query_dsl"] fields (pure matchAll) document
  | _ => fail .notObject

end Reading

end FilterQuery
