import FilterQuery.Reading
import FilterQuery.Text.Upper

/-!
# Words from outside

Operators, relations and bounds are named by words.  A word that names no operator leaves the
condition without one, while a word that names no relation is an error.  In both cases padding
does not count and what is left out, or empty, stands for nothing.

Main results:

- `Relation.resolve_keyword`: the word of a relation is resolved to it.
- `Operator.resolve_name`: the name of an operator is resolved to it.
-/

namespace FilterQuery

/-- The operator that data names. -/
def Operator.resolve (input : Input) : Except Number.DigitLimit (Option Operator) :=
  if input.isUnset then .ok none
  else input.display.map fun spelling => ofSpelling? (Text.trim spelling)

/-- The relation that data names; the case of its letters does not count. -/
def Relation.resolve (input : Input) : Except Error (Option Relation) :=
  if input.isUnset then .ok none
  else
    match input.display with
    | .error limit => .error (.digitLimit limit)
    | .ok text =>
        let word := Text.upper (Text.trim text)
        match ofKeyword? word with
        | some relation => .ok (some relation)
        | none => .error (.unknownRelation word)

/-- The word of a relation is resolved to it. -/
theorem Relation.resolve_keyword (r : Relation) :
    Relation.resolve (.text r.keyword) = .ok (some r) := by
  have hword : Text.upper (Text.trim r.keyword) = r.keyword := by cases r <;> decide +kernel
  have hgiven : (Input.text r.keyword).isUnset = false := by cases r <;> rfl
  have htext : (Input.text r.keyword).display = .ok r.keyword := rfl
  simp only [resolve, hgiven, htext, hword, ofKeyword?_keyword, Bool.false_eq_true, ↓reduceIte]

/-- The name of an operator is resolved to it. -/
theorem Operator.resolve_name (op : Operator) :
    Operator.resolve (.text op.name) = .ok (some op) := by
  have hword : Text.trim op.name = op.name := by cases op <;> decide +kernel
  have hgiven : (Input.text op.name).isUnset = false := by cases op <;> rfl
  have htext : (Input.text op.name).display = .ok op.name := rfl
  simp [resolve, hgiven, htext, hword, Except.map]

namespace Reading

/-- A text, or the text that bytes spell. -/
def text : Input → Reading String
  | .text s => pure s
  | .bytes octets =>
      match Text.decodeOctets? octets with
      | some s => pure s
      | none => fail .notUnicode
  | _ => fail .notText

/-- The kind that a node says it is. -/
def kind (expected : String) (fields : List (String × Input)) : Reading Unit :=
  field ["kind"] fields (pure ()) fun
    | .text s => if s = expected then pure () else fail .notAnOption
    | _ => fail .notAnOption

/-- The identifier of a node, a new one if it has none. -/
def identifier (fields : List (String × Input)) : Reading String :=
  field ["id"] fields mint text

/-- An operator. -/
def operator (input : Input) : Reading (Option Operator) :=
  match Operator.resolve input with
  | .ok op => pure op
  | .error _ => fail .meaningless

/-- A relation. -/
def relation (input : Input) : Reading (Option Relation) :=
  match Relation.resolve input with
  | .ok relation => pure relation
  | .error _ => fail .meaningless

/-- Whether the bound at one end of a range includes its limit; left out, it does not. -/
def inclusive (side : Side) (input : Input) : Reading Bool :=
  if input.isUnset then pure false
  else
    match input with
    | .text word =>
        match side.isInclusive? word.toLower with
        | some inclusive => pure inclusive
        | none => fail .notAnOption
    | _ => fail .notAnOption

end Reading

end FilterQuery
