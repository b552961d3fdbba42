import FilterQuery.Filter
import FilterQuery.Json.Reader
import FilterQuery.Reading.Node

/-!
# Payloads from requests

Requests carry filters and context queries as data, as JSON text or as bytes.  Bad payloads do
not stop a request: what cannot be used as context is no context, and what does not describe a
filter finds everything.  The one exception is an integer with too many digits, which is an error.

Main results:

- `query_unset`: a payload that was left out finds everything.
- `context?_unset`: a context that was left out is none.
-/

namespace FilterQuery.Intake

open Number

/-- The data of a payload, if it has any: text and bytes are read as JSON. -/
def load? (raw : Input) : Except DigitLimit (Option Input) :=
  match raw with
  | .text s => loadText s
  | .bytes octets => (Text.decodeOctets? octets).elim (.ok none) loadText
  | data => .ok (some data)
where
  /-- The data that a JSON text denotes. -/
  loadText (s : String) : Except DigitLimit (Option Input) :=
    match Json.read s with
    | .ok value => .ok (some (.ofValue value))
    | .error .malformed => .ok none
    | .error (.digitLimit limit) => .error limit

/-- The fields of an object whose field `query` is an object. -/
def contextFields? : Input → Option (List (String × Input))
  | .object fields =>
      match Input.get? "query" fields with
      | some (.object _) => some fields
      | _ => none
  | _ => none

/-- The context query in a payload: a document whose field `query` is an object. -/
def context? (raw : Input) : Except DigitLimit (Option Value) :=
  if raw.isUnset then .ok none
  else
    (load? raw).map fun data =>
      (data.bind contextFields?).map fun fields => .object (Input.toFields fields)

/-- The filter that data describes: a list of rows, an object with a root, or a node. -/
def filter (default : Relation) : Input → Reading Filter
  | .list items => Filter.rows <$> Reading.mixedRows (.list items)
  | .object fields =>
      if (Input.get? "root" fields).isSome then
        (fun tree => Filter.tree tree.root) <$> Reading.tree default (.object fields)
      else (fun node => Filter.tree (some node)) <$> Reading.node default (.object fields)
  | _ => Reading.fail .notObject

/-- The query document for a payload.  A document with a field `query` is handed on as it is, and
any other data is read as a filter. -/
def query (default : Relation) (ids : IdSupply) (raw : Input) : Except DigitLimit Value := do
  if raw.isUnset then return matchAll
  match ← load? raw with
  | none => return matchAll
  | some data =>
      match data with
      | .object fields =>
          if (Input.get? "query" fields).isSome then return data.toValue else described data
      | _ => described data
where
  /-- The query document for the filter that data describes, if it describes one. -/
  described (data : Input) : Except DigitLimit Value :=
    match (filter default data).run ids with
    | .ok (found, _) => found.document default
    | .error _ => .ok matchAll

/-- The body of a search for a document; a document without a query finds everything. -/
def searchBody (document : Value) : Value :=
  match document with
  | .object fields =>
      match Value.get? "query" fields with
      | some query => if query.isPresent then .single "query" query else matchAll
      | none => matchAll
  | _ => matchAll

/-- A payload that was left out finds everything. -/
theorem query_unset {default : Relation} {ids : IdSupply} {raw : Input}
    (h : raw.isUnset = true) : query default ids raw = .ok matchAll := by
  simp [query, h, pure, Except.pure]

/-- A context that was left out is none. -/
theorem context?_unset {raw : Input} (h : raw.isUnset = true) : context? raw = .ok none := by
  simp [context?, h]

end FilterQuery.Intake
