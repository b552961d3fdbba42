import FilterQuery.Intake
import FilterQuery.Settings

/-!
# Suggesting values

While a value is typed, values that occur in the field are suggested.  They are asked for in a
query that collects the values of a field, or looked up in any other way; a lookup may have
effects and may fail.  Only exact fields are looked up, and only for operators that take a value.

Main results:

- `clampSize_bounds`: whatever is asked for, at least one and not too many values are given.
- `suggest_of_not_wants`: without need, nothing is looked up.
-/

namespace FilterQuery.Suggestion

open Number

/-- How many values are given when `size` are asked for. -/
def clampSize (settings : Settings) (size : Option Int) : Int :=
  max 1 (min (size.getD settings.suggestDefaultSize) settings.suggestLimit)

/-- Whatever is asked for, at least one and not too many values are given. -/
theorem clampSize_bounds (settings : Settings) (size : Option Int) :
    1 ≤ clampSize settings size ∧ clampSize settings size ≤ settings.suggestLimit := by
  have hlimit := settings.one_le_suggestLimit
  unfold clampSize
  omega

/-! ## Collecting texts -/

/-- One more text, unless it is there already. -/
def insertText (texts : List String) (text : String) : List String :=
  if texts.contains text then texts else texts ++ [text]

/-- The texts of values, each once, in the order in which they occur first. -/
def distinctTexts (values : List Value) : Except DigitLimit (List String) :=
  ((values.filter fun value => !value.isMissing).mapM Value.display).map fun texts =>
    texts.foldl insertText []

/-! ## Asking the search engine -/

/-- The clauses that narrow down which values are collected. -/
def narrowing (field term : String) : List Value :=
  if term.isEmpty then []
  else if Field.isExact field then
    [.single "wildcard" (.single field (patternDocument (.text ("*" ++ term ++ "*"))))]
  else
    [.single "match" (.single field (.object
      [("query", .text term), ("operator", .text "and"), ("fuzziness", .text "AUTO")]))]

/-- The query of a context document, if it has one. -/
def contextQuery? : Option Value → Option Value
  | some (.object fields) => (Value.get? "query" fields).filter Value.isPresent
  | _ => none

/-- The request for the values of a field, in their order, that go with a search term and a
context. -/
def valuesQuery (settings : Settings) (field : String) (term : Option String) (size : Option Int)
    (context : Option Value) : Value :=
  let required := .single "exists" (.single "field" (.text field)) ::
    ((contextQuery? context).toList ++ narrowing field (Text.trim (term.getD "")))
  let terms : Value := .object
    [("field", .text field), ("size", .int (clampSize settings size)),
      ("order", .single "_key" (.text "asc"))]
  .object
    [("size", .int 0), ("query", .single "bool" (.single "must" (.list required))),
      ("aggs", .single "field_values" (.single "terms" terms))]

/-- The field of an object value. -/
def field? (name : String) : Value → Option Value
  | .object fields => Value.get? name fields
  | _ => none

/-- The value that a bucket of a response stands for. -/
def bucketValue (bucket : Value) : Value :=
  ((field? "key_as_string" bucket).or (field? "key" bucket)).getD .null

/-- The buckets of a response to the request for values. -/
def buckets (response : Value) : List Value :=
  let found := do
    let aggregations ← field? "aggregations" response
    let values ← field? "field_values" aggregations
    field? "buckets" values
  match found with
  | some (.list items) => items
  | _ => []

/-- The texts in a response to the request for values. -/
def bucketTexts (response : Value) : Except DigitLimit (List String) :=
  distinctTexts ((buckets response).map bucketValue)

/-! ## Looking values up -/

/-- What a lookup is asked for. -/
structure Request where
  field : String
  term : Option String
  size : Int
  context : Option Value

/-- Whether values are suggested for a field and an operator. -/
def wantsValues (field : String) (operator : Option Operator) : Bool :=
  Field.isExact field && operator != some .present && operator != some .absent

/-- Suggestions for a field from a lookup that may fail.  A context that cannot be used is left
out with a warning. -/
def suggest {m : Type → Type} [Monad m] {Failure : Type} (settings : Settings)
    (lookup : Request → m (Except Failure (List Value))) (field : String)
    (operator : Option Operator) (term : Option String) (size : Option Int) (context : Input) :
    m (Except DigitLimit (Outcome (List String))) := do
  if !wantsValues field operator then return .ok (.success [] [])
  match Intake.context? context with
  | .error limit => return .error limit
  | .ok usable =>
      let warnings :=
        if !context.isUnset && usable.isNone then [Notice.contextIgnored field] else []
      let request := { field, term, size := clampSize settings size, context := usable }
      match ← lookup request with
      | .error _ => return .ok (.failure [.lookupFailed field] warnings)
      | .ok values => return (distinctTexts values).map fun texts => .success texts warnings

/-- Without need, nothing is looked up. -/
theorem suggest_of_not_wants {m : Type → Type} [Monad m] {Failure : Type} (settings : Settings)
    (lookup : Request → m (Except Failure (List Value))) {field : String}
    {operator : Option Operator} (term : Option String) (size : Option Int) (context : Input)
    (h : wantsValues field operator = false) :
    suggest settings lookup field operator term size context =
      pure (.ok (.success [] [])) := by
  simp [suggest, h]

end FilterQuery.Suggestion
