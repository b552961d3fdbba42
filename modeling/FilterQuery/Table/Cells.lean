import FilterQuery.Number.Scientific
import FilterQuery.Number.Whole
import FilterQuery.Table

/-!
# Columns from cells of text

The columns of a sample are given the narrowest kind that fits all their cells: integers, then
fractions, then truth values, then text.  A cell that is empty or says that its value is missing
is a gap and counts for none of them.

Integers first have to fit into 64 bits with a sign.  Where the first cell that stands in the way
is no integer at all, fractions are tried.  Where it is one of another size, the column may hold
integers of 64 bits without a sign, but then neither gaps nor negative ones beside those that need
all bits: such a column stays text, gaps and all.  Integers of any other size are kept as values
of their own kinds.

Main results:

- `length_values_ofTexts`: every cell has its value.
-/

namespace FilterQuery.Csv

open Number

/-! ## Single cells -/

/-- What a cell says if its value is missing. -/
def missingMarks : List String :=
  ["", "#N/A", "#N/A N/A", "#NA", "-1.#IND", "-1.#QNAN", "-NaN", "-nan", "1.#IND", "1.#QNAN",
    "<NA>", "N/A", "NA", "NULL", "NaN", "None", "n/a", "nan", "null"]

/-- Whether a cell has no value. -/
def isGap (cell : String) : Bool :=
  missingMarks.contains cell

/-- A cell without the white space around it. -/
def trimmed (cell : String) : List Char :=
  Text.trimBy Text.isAsciiSpace cell.toList

/-- Whether a cell starts with a minus sign. -/
def hasMinus (cell : String) : Bool :=
  (trimmed cell).head? == some '-'

/-- The integer that a cell holds: digits, perhaps with a sign. -/
def integer? (cell : String) : Option Int :=
  let (negative, digits) := signed (trimmed cell)
  if !digits.isEmpty && digits.all Text.isAsciiDigit then some (signedInteger negative digits)
  else none

/-- The integer of any size that a cell holds; its digits may be grouped by underscores. -/
def largeInteger? (cell : String) : Option Int :=
  let (negative, grouped) := signed (trimmed cell)
  let digits := withoutGrouping grouped
  if !digits.isEmpty && digits.all Text.isAsciiDigit && digits.length ≤ maxDigits then
    some (signedInteger negative digits)
  else none

/-- The words for the infinities, and whether they are negative. -/
def infinityWords : List (String × Bool) :=
  [("inf", false), ("+inf", false), ("-inf", true), ("infinity", false), ("+infinity", false),
    ("-infinity", true)]

/-- The fraction that a cell holds.  Around the word for an infinity there is no white space. -/
def fraction? (cell : String) : Option Binary64 :=
  match infinityWords.lookup cell.toLower with
  | some negative => some (Binary64.infinity negative)
  | none => Binary64.ofText? (trimmed cell)

/-- The truth value that a cell holds. -/
def truth? (cell : String) : Option Bool :=
  [("true", true), ("false", false)].lookup cell.toLower

/-! ## Integers of 64 bits -/

/-- Why a cell holds no integer of 64 bits. -/
inductive Misfit where
  /-- The cell holds no integer. -/
  | malformed
  /-- The integer has another size. -/
  | tooLarge
deriving DecidableEq, Repr

/-- Why a cell is no integer of 64 bits with a sign. -/
def signedMisfit? (cell : String) : Option Misfit :=
  match integer? cell with
  | none => some .malformed
  | some n => if -Nat.pow 2 63 ≤ n && n < Nat.pow 2 63 then none else some .tooLarge

/-- Why a cell is no integer of 64 bits without a sign, where what starts with a minus sign is
looked at later. -/
def unsignedMisfit? (cell : String) : Option Misfit :=
  if hasMinus cell then none
  else
    match integer? cell with
    | none => some .malformed
    | some n => if n < Nat.pow 2 64 then none else some .tooLarge

/-- Whether a cell holds an integer that needs all of 64 bits. -/
def needsAllBits (cell : String) : Bool :=
  (integer? cell).any fun (n : Int) => decide (Nat.pow 2 63 ≤ n)

/-! ## Whole columns -/

/-- The kind and the values of a column. -/
structure Typed where
  kind : ColumnKind
  values : List Value

namespace Typed

/-- The cells as text, gaps and all. -/
def verbatim (cells : List String) : Typed :=
  ⟨.text, cells.map Value.text⟩

/-- The cells of a column under one reading, if it fits all of them; `kind` tells the kind of a
column with gaps and of one without. -/
def readAs? (kind : Bool → ColumnKind) (read : String → Option Value) (cells : List String) :
    Option Typed :=
  if cells.all fun cell => isGap cell || (read cell).isSome then
    some ⟨kind (cells.any isGap),
      cells.map fun cell => if isGap cell then .null else (read cell).getD .null⟩
  else none

/-- The cells of a column, where those that have a value are texts. -/
def texts (cells : List String) : Typed :=
  ⟨.text, cells.map fun cell => if isGap cell then .null else .text cell⟩

/-- The value of an integer in a column with or without gaps.  Among fractions the least integer
of 64 bits stands for a gap, and so does one that is rounded to it. -/
def integerValue (gaps : Bool) (n : Int) : Value :=
  if gaps && Binary64.ofInt n == Binary64.ofInt (-Nat.pow 2 63) then .null else .int n

/-- The cells of a column of integers of 64 bits, as fractions if it has gaps. -/
def integers (cells : List String) : Typed :=
  let read (cell : String) := (integer? cell).map (integerValue (cells.any isGap))
  (readAs? (fun gaps => if gaps then .fraction else .integer) read cells).getD (texts cells)

/-- The cells of a column of integers of any size, or else of texts. -/
def largeIntegers (cells : List String) : Typed :=
  let read (cell : String) := (largeInteger? cell).map Value.int
  (readAs? (fun _ => .mixed) read cells).getD (texts cells)

/-- The cells of a column that does not hold integers. -/
def withoutIntegers (cells : List String) : Typed :=
  let fractions := readAs? (fun _ => .fraction) (fun cell => (fraction? cell).map .float) cells
  let truths := readAs? (fun gaps => if gaps then .mixed else .truth)
    (fun cell => (truth? cell).map .bool) cells
  (fractions.or truths).getD (texts cells)

/-- The cells of a column that holds an integer too large for 64 bits with a sign. -/
def unsigned (cells : List String) : Typed :=
  let known := cells.filter fun cell => !isGap cell
  match known.findSome? unsignedMisfit? with
  | some .malformed => withoutIntegers cells
  | some .tooLarge => largeIntegers cells
  | none =>
      let negative := known.any hasMinus
      if known.any needsAllBits && (negative || cells.any isGap) then verbatim cells
      else if negative then largeIntegers cells
      else integers cells

/-- The kind of a column and the values of its cells. -/
def ofTexts (cells : List String) : Typed :=
  if cells.isEmpty then ⟨.mixed, []⟩
  else if cells.all isGap then ⟨.fraction, cells.map fun _ => .float Binary64.nan⟩
  else
    match (cells.filter fun cell => !isGap cell).findSome? signedMisfit? with
    | none => integers cells
    | some .malformed => withoutIntegers cells
    | some .tooLarge => unsigned cells

/-- A reading that fits gives every cell its value. -/
theorem length_values_of_readAs? {kind : Bool → ColumnKind} {read : String → Option Value}
    {cells : List String} {typed : Typed} (h : readAs? kind read cells = some typed) :
    typed.values.length = cells.length := by
  unfold readAs? at h
  split at h
  · cases h
    simp
  · cases h

/-- A reading that may fit gives every cell its value if what stands in for it does. -/
theorem length_values_getD_readAs? {kind : Bool → ColumnKind} {read : String → Option Value}
    {cells : List String} {other : Typed} (h : other.values.length = cells.length) :
    ((readAs? kind read cells).getD other).values.length = cells.length := by
  cases hread : readAs? kind read cells with
  | none => exact h
  | some typed => exact length_values_of_readAs? hread

/-- Every cell of a column of texts has its value. -/
theorem length_values_texts (cells : List String) :
    (texts cells).values.length = cells.length := by
  simp [texts]

/-- Every cell of a column that does not hold integers has its value. -/
theorem length_values_withoutIntegers (cells : List String) :
    (withoutIntegers cells).values.length = cells.length := by
  simp only [withoutIntegers, Option.getD_or]
  exact length_values_getD_readAs? (length_values_getD_readAs? (length_values_texts cells))

/-- Every cell of a column of large integers has its value. -/
theorem length_values_unsigned (cells : List String) :
    (unsigned cells).values.length = cells.length := by
  have htexts := length_values_texts cells
  simp only [unsigned]
  split
  · exact length_values_withoutIntegers cells
  · exact length_values_getD_readAs? htexts
  · split
    · simp [verbatim]
    · split <;> exact length_values_getD_readAs? htexts

/-- Every cell has its value. -/
theorem length_values_ofTexts (cells : List String) :
    (ofTexts cells).values.length = cells.length := by
  unfold ofTexts
  split
  · simp_all
  · split
    · simp
    · split
      · exact length_values_getD_readAs? (length_values_texts cells)
      · exact length_values_withoutIntegers cells
      · exact length_values_unsigned cells

end Typed

end FilterQuery.Csv
