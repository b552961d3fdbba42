import FilterQuery.Node.Record
import FilterQuery.Value.Display

/-!
# Data from outside

Callers hand in plain data and nodes that were built before; any of these may stand inside a list
or an object.

Main results:

- `toValue_ofValue`: plain data is data from outside, and is taken back from it unchanged.
-/

namespace FilterQuery

open Number

/-- What a caller hands in. -/
inductive Input where
  | null
  | bool (b : Bool)
  | int (n : Int)
  | float (x : Binary64)
  | text (s : String)
  | bytes (octets : List UInt8)
  | list (items : List Input)
  | object (fields : List (String × Input))
  | node (n : Node)

namespace Input

instance : Inhabited Input := ⟨null⟩

/-- The field of an object, by name. -/
def get? (name : String) : List (String × Input) → Option Input
  | [] => none
  | (key, input) :: rest => if key = name then some input else get? name rest

/-- Gives the field of a name a new value.  A field that is there keeps its place, a new one comes
last. -/
def set (name : String) (input : Input) : List (String × Input) → List (String × Input)
  | [] => [(name, input)]
  | (key, old) :: rest =>
      if key = name then (key, input) :: rest else (key, old) :: set name input rest

/-- The first of several spellings of a field that an object has, with its value. -/
def find? (spellings : List String) (fields : List (String × Input)) : Option (String × Input) :=
  spellings.findSome? fun name => (get? name fields).map (name, ·)

/-- What was left out: nothing, or the empty text. -/
def isUnset : Input → Bool
  | null => true
  | text s => s.isEmpty
  | _ => false

/-- Whether data counts as present where only presence is asked for. -/
def isPresent : Input → Bool
  | null => false
  | bool b => b
  | int n => n != 0
  | float x => !x.isZero
  | text s => !s.isEmpty
  | bytes octets => !octets.isEmpty
  | list items => !items.isEmpty
  | object fields => !fields.isEmpty
  | node _ => true

/-! ## Plain data -/

mutual

/-- Plain data as data from outside. -/
def ofValue : Value → Input
  | .null => null
  | .bool b => bool b
  | .int n => int n
  | .float x => float x
  | .text s => text s
  | .bytes octets => bytes octets
  | .list items => list (ofItems items)
  | .object fields => object (ofFields fields)

/-- The items of a list as data from outside. -/
def ofItems : List Value → List Input
  | [] => []
  | item :: rest => ofValue item :: ofItems rest

/-- The fields of an object as data from outside. -/
def ofFields : List (String × Value) → List (String × Input)
  | [] => []
  | (name, value) :: rest => (name, ofValue value) :: ofFields rest

end

mutual

/-- The plain data in what a caller hands in.  A node that was built before counts as its
record. -/
def toValue : Input → Value
  | null => .null
  | bool b => .bool b
  | int n => .int n
  | float x => .float x
  | text s => .text s
  | bytes octets => .bytes octets
  | list items => .list (toItems items)
  | object fields => .object (toFields fields)
  | node n => n.record false

/-- The plain data in the items of a list. -/
def toItems : List Input → List Value
  | [] => []
  | item :: rest => item.toValue :: toItems rest

/-- The plain data in the fields of an object. -/
def toFields : List (String × Input) → List (String × Value)
  | [] => []
  | (name, input) :: rest => (name, input.toValue) :: toFields rest

end

mutual

/-- Plain data is taken back from data from outside unchanged. -/
@[simp]
theorem toValue_ofValue : ∀ value : Value, (ofValue value).toValue = value
  | .null | .bool _ | .int _ | .float _ | .text _ | .bytes _ => by simp [ofValue, toValue]
  | .list items => by simp [ofValue, toValue, toItems_ofItems items]
  | .object fields => by simp [ofValue, toValue, toFields_ofFields fields]

/-- The items of a list are taken back unchanged. -/
theorem toItems_ofItems : ∀ items : List Value, toItems (ofItems items) = items
  | [] => rfl
  | item :: rest => by simp [ofItems, toItems, toValue_ofValue item, toItems_ofItems rest]

/-- The fields of an object are taken back unchanged. -/
theorem toFields_ofFields : ∀ fields : List (String × Value), toFields (ofFields fields) = fields
  | [] => rfl
  | (name, value) :: rest => by
      simp [ofFields, toFields, toValue_ofValue value, toFields_ofFields rest]

end

/-- A field of plain data is found where it is found in data from outside. -/
theorem get?_ofFields (name : String) (fields : List (String × Value)) :
    get? name (ofFields fields) = (Value.get? name fields).map ofValue := by
  induction fields with
  | nil => rfl
  | cons field rest ih =>
      obtain ⟨key, value⟩ := field
      by_cases h : key = name <;> simp [ofFields, get?, Value.get?, h, ih]

/-- The text of what a caller hands in. -/
def display (input : Input) : Except DigitLimit String :=
  input.toValue.display

end Input

end FilterQuery
