import FilterQuery.Number.Shortest
import FilterQuery.Text.Blank
import FilterQuery.Text.Octets

/-!
# Values

The values that conditions compare with, and the query documents themselves, are data in the
sense of JSON: the program hands them on without giving them a type of their own.  Integers have
any size, an integer and a fraction of equal worth are different values, and the fields of an
object stay in the order in which they were written.  Callers may also hand in bytes, which stay
bytes until a value is exchanged with other programs.

Main results:

- `isBlank_list`: a list is blank exactly when all its items are.
- `get?_set_self`: a field that was set is found with its new value.
-/

namespace FilterQuery

open Number

/-- A piece of data. -/
inductive Value where
  | null
  | bool (b : Bool)
  | int (n : Int)
  | float (x : Binary64)
  | text (s : String)
  | bytes (octets : List UInt8)
  | list (items : List Value)
  | object (fields : List (String × Value))

namespace Value

instance : Inhabited Value := ⟨null⟩

/-- The field of an object, by name. -/
def get? (name : String) : List (String × Value) → Option Value
  | [] => none
  | (key, value) :: rest => if key = name then some value else get? name rest

/-- The first field of a name is the one that is found. -/
@[simp]
theorem get?_cons_self (name : String) (value : Value) (rest : List (String × Value)) :
    get? name ((name, value) :: rest) = some value := by
  simp [get?]

/-- A field of another name is passed over. -/
theorem get?_cons_of_ne {name key : String} (h : key ≠ name) (value : Value)
    (rest : List (String × Value)) : get? name ((key, value) :: rest) = get? name rest := by
  simp [get?, h]

/-- Gives the field of a name a new value.  A field that is there keeps its place, a new one comes
last. -/
def set (name : String) (value : Value) : List (String × Value) → List (String × Value)
  | [] => [(name, value)]
  | (key, old) :: rest =>
      if key = name then (key, value) :: rest else (key, old) :: set name value rest

/-- Whether a value is nothing at all. -/
def isNull : Value → Bool
  | null => true
  | _ => false

/-- Whether a value is missing from data: nothing, or the absence of a number. -/
def isMissing : Value → Bool
  | null => true
  | float x => x.isNaN
  | _ => false

/-- A setting or an argument that was left out: nothing, or the empty text. -/
def isUnset : Value → Bool
  | null => true
  | text s => s.isEmpty
  | _ => false

/-- Whether a value counts as present where only presence is asked for: zero, the empty text and
empty containers do not. -/
def isPresent : Value → Bool
  | null => false
  | bool b => b
  | int n => n != 0
  | float x => !x.isZero
  | text s => !s.isEmpty
  | bytes octets => !octets.isEmpty
  | list items => !items.isEmpty
  | object fields => !fields.isEmpty

/-! ## Blank values -/

mutual

/-- A value that was not filled in: nothing, padding, or a list of such values. -/
def isBlank : Value → Bool
  | null => true
  | text s => Text.isBlank s
  | list items => areBlank items
  | _ => false

/-- Whether every item of a list is blank. -/
def areBlank : List Value → Bool
  | [] => true
  | item :: rest => item.isBlank && areBlank rest

end

/-- Going through the items one by one is the test on all of them. -/
theorem areBlank_eq_all (items : List Value) : areBlank items = items.all isBlank := by
  induction items with
  | nil => rfl
  | cons item rest ih => simp [areBlank, ih]

/-- A list is blank exactly when all its items are. -/
theorem isBlank_list (items : List Value) : (list items).isBlank = items.all isBlank := by
  simp [isBlank, areBlank_eq_all]

/-! ## Values in JSON -/

mutual

/-- A value as it can be exchanged: infinities and the absence of a number become nothing, and
bytes the text that they spell. -/
def exchangeable : Value → Value
  | float x => if x.isFinite then float x else null
  | bytes octets => text (Text.decodeOctets octets)
  | list items => list (exchangeableItems items)
  | object fields => object (exchangeableFields fields)
  | value => value

/-- The items of a list as they can be exchanged. -/
def exchangeableItems : List Value → List Value
  | [] => []
  | item :: rest => item.exchangeable :: exchangeableItems rest

/-- The fields of an object as they can be exchanged. -/
def exchangeableFields : List (String × Value) → List (String × Value)
  | [] => []
  | (name, value) :: rest => (name, value.exchangeable) :: exchangeableFields rest

end

end Value

end FilterQuery
