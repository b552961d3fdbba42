import FilterQuery.Issue
import FilterQuery.Suggestion
import FilterQuery.Text.Upper

/-!
# Tables

A sample of the indexed documents is a table.  Its columns are the fields that can be filtered,
and its cells are the values that can be suggested.  A column has a kind, which decides how its
cells are shown: in a column of fractions, and in one of integers with gaps, every number is a
fraction.
-/

namespace FilterQuery

open Number

/-- What the cells of a column are. -/
inductive ColumnKind where
  | integer
  | fraction
  | truth
  | text
  | mixed
deriving DecidableEq, Repr

/-- A named column of a table. -/
structure Column where
  name : String
  kind : ColumnKind
  cells : List Value

/-- A table, column by column. -/
abbrev Table := List Column

/-! ## The kind of given cells -/

namespace ColumnKind

/-- Whether a value is an integer. -/
def isInt : Value → Bool
  | .int _ => true
  | _ => false

/-- Whether a value is a fraction. -/
def isFloat : Value → Bool
  | .float _ => true
  | _ => false

/-- Whether a value is a truth value. -/
def isBool : Value → Bool
  | .bool _ => true
  | _ => false

/-- Whether a value is a text. -/
def isText : Value → Bool
  | .text _ => true
  | _ => false

/-- Whether an integer lies between two bounds; a value that is none does not count. -/
def isIntBetween (low high : Int) : Value → Bool
  | .int n => low ≤ n && n ≤ high
  | _ => true

/-- Whether the integers of a column fit into 64 bits, with a sign or without one.  Those behind
a gap are taken as fractions and may have any size. -/
def fitsWords (cells : List Value) : Bool :=
  let exact := cells.takeWhile fun cell => !cell.isNull
  exact.all (isIntBetween (-Nat.pow 2 63) (Nat.pow 2 63 - 1)) ||
    exact.all (isIntBetween 0 (Nat.pow 2 64 - 1))

/-- What given cells are. -/
def ofCells (cells : List Value) : ColumnKind :=
  let known := cells.filter fun cell => !cell.isMissing
  let complete := known.length == cells.length
  if !known.isEmpty && known.all isText then .text
  else if !known.isEmpty && complete && known.all isBool then .truth
  else if known.all (fun cell => isInt cell || isFloat cell) && fitsWords cells then
    if cells.any isFloat || (!known.isEmpty && !complete) then .fraction
    else if known.isEmpty then .mixed
    else .integer
  else .mixed

end ColumnKind

namespace Column

/-- A column of given cells. -/
def ofCells (name : String) (cells : List Value) : Column :=
  { name, kind := .ofCells cells, cells }

/-- A cell as it is shown in a column of a kind. -/
def cellText (kind : ColumnKind) (cell : Value) : Except DigitLimit String :=
  match kind, cell with
  | .fraction, .int n => .ok (Binary64.ofInt n).text
  | _, .bytes octets => .ok (Text.decodeOctets octets)
  | _, cell => cell.display

/-- The cells of a column that are not missing, as they are shown. -/
def texts (column : Column) : Except DigitLimit (List String) :=
  (column.cells.filter fun cell => !cell.isMissing).mapM (cellText column.kind)

end Column

namespace Table

/-- The fields that can be filtered: every column, and the exact field for each column that may
hold text. -/
def fields (table : Table) : List String :=
  table.flatMap fun column =>
    match column.kind with
    | .text | .mixed => [column.name, column.name ++ Field.exactSuffix]
    | _ => [column.name]

/-- Whether a text contains a search term, whatever the case of their letters. -/
def containsTerm (term text : String) : Bool :=
  Text.occursIn (Text.upper term).toList (Text.upper text).toList

/-- The first of several texts; a negative size leaves out as many at the end. -/
def firstTexts (size : Option Int) (texts : List String) : List String :=
  match size with
  | none => texts
  | some size =>
      if 0 ≤ size then texts.take size.toNat else texts.take (texts.length - size.natAbs)

/-- The values of a field that contain a search term: each once, in ascending order. -/
def lookup (table : Table) (field : String) (term : Option String) (size : Option Int) :
    Except Error (List String) :=
  match table.find? fun column => column.name == Field.base field with
  | none => .error (.unknownField field)
  | some column =>
      match column.texts with
      | .error limit => .error (.digitLimit limit)
      | .ok texts =>
          let sought := Text.trim (term.getD "")
          let found := if sought.isEmpty then texts else texts.filter (containsTerm sought)
          let distinct := found.foldl Suggestion.insertText []
          .ok (firstTexts size (distinct.mergeSort fun a b => decide (a ≤ b)))

end Table

end FilterQuery
