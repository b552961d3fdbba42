/-!
# Operators

An operator says how a condition compares its field.  Forms, saved filters and requests spell
the operators in several ways; one table lists every accepted spelling.

Main results:

- `ofSpelling?_name`: the canonical name of an operator is one of its spellings.
-/

namespace FilterQuery

/-- How a condition compares its field. -/
inductive Operator where
  | equal
  | notEqual
  | oneOf
  | noneOf
  | present
  | absent
  | range
  | startsWith
  | wildcard
  | queryString
deriving DecidableEq, Repr

/-- What an operator has to be given besides a field. -/
inductive Need where
  /-- A value that is not blank. -/
  | value
  /-- At least one bound that is not blank. -/
  | bound
  | nothing
deriving DecidableEq, Repr

namespace Operator

/-- The canonical name of an operator. -/
def name : Operator → String
  | equal => "is"
  | notEqual => "is_not"
  | oneOf => "is_one_of"
  | noneOf => "is_not_one_of"
  | present => "exists"
  | absent => "does_not_exist"
  | range => "range"
  | startsWith => "prefix"
  | wildcard => "wildcard"
  | queryString => "query_string"

/-- Every accepted spelling. -/
def spellings : List (String × Operator) :=
  [("is", equal), ("IS", equal),
    ("is_not", notEqual), ("isNot", notEqual), ("IS_NOT", notEqual), ("is not", notEqual),
    ("is_one_of", oneOf), ("terms", oneOf), ("TERMS", oneOf), ("is one of", oneOf),
    ("is_not_one_of", noneOf), ("notTerms", noneOf), ("NOT_TERMS", noneOf),
    ("is not one of", noneOf),
    ("exists", present), ("EXISTS", present),
    ("does_not_exist", absent), ("notExists", absent), ("NOT_EXISTS", absent),
    ("does not exist", absent),
    ("range", range), ("RANGE", range),
    ("prefix", startsWith), ("PREFIX", startsWith),
    ("wildcard", wildcard), ("WILDCARD", wildcard),
    ("query_string", queryString), ("queryString", queryString), ("QUERY_STRING", queryString)]

/-- The operator that a spelling stands for. -/
def ofSpelling? (spelling : String) : Option Operator :=
  spellings.lookup spelling

/-- The canonical name of an operator is one of its spellings. -/
@[simp]
theorem ofSpelling?_name (op : Operator) : ofSpelling? op.name = some op := by
  cases op <;> decide

/-- Whether an operator asks for the opposite of another one. -/
def negated : Operator → Bool
  | notEqual | noneOf | absent => true
  | _ => false

/-- What an operator has to be given besides a field. -/
def need : Operator → Need
  | present | absent => .nothing
  | range => .bound
  | _ => .value

end Operator

end FilterQuery
