import FilterQuery.Number.Decimal
import FilterQuery.Text.Quoted

/-!
# Issues and errors

Data from outside may fail to describe what it should describe.  Every such fault is an issue: a
place in the data and a cause.  An error is what a whole call fails with: the issues of its data,
a word that is no relation, an integer with too many digits, a column that is not there, or a tree
that is not there.
-/

namespace FilterQuery

/-- One step on the way to a place in data: a field or an item. -/
inductive Step where
  | field (name : String)
  | item (index : Nat)
deriving DecidableEq, Repr

/-- What is wrong at a place. -/
inductive Fault where
  /-- A text was expected. -/
  | notText
  /-- Bytes stand where a text was expected, and they are not UTF-8. -/
  | notUnicode
  /-- Only certain words are accepted, and this is none of them. -/
  | notAnOption
  /-- The value has the right form but no meaning. -/
  | meaningless
  /-- A list was expected. -/
  | notList
  /-- An object was expected. -/
  | notObject
  /-- The kind of a node is neither of the two known kinds. -/
  | unknownKind
  /-- A text was to be read as an integer and is none. -/
  | unreadableInteger
  /-- An integer was expected. -/
  | notInteger
  /-- An integer has more digits, or is larger, than can be taken. -/
  | integerTooLong
  /-- An integer was expected, and a number with decimals was found. -/
  | fractional
  /-- A number was expected, and an infinity or the absence of a number was found. -/
  | notFinite
deriving DecidableEq, Repr

/-- A fault and its place in the data. -/
structure Issue where
  location : List Step
  fault : Fault
deriving DecidableEq, Repr

/-- The same issue, seen from the container. -/
def Issue.within (step : Step) (issue : Issue) : Issue :=
  { issue with location := step :: issue.location }

/-- Why a call fails. -/
inductive Error where
  | invalid (issues : List Issue)
  | unknownRelation (word : String)
  | digitLimit (limit : Number.DigitLimit)
  | unknownField (field : String)
  | noTree
deriving DecidableEq, Repr

/-- What is said about an error, apart from the issues, which speak for themselves. -/
def Error.message : Error → String
  | invalid _ => ""
  | unknownRelation word => Text.quote word ++ " is not a valid Relation"
  | digitLimit limit => limit.message
  | unknownField field => Text.quote ("Field '" ++ field ++ "' does not exist")
  | noTree => "there is no tree"

end FilterQuery
