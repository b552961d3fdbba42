/-!
# The names of columns

The first record of a table names its columns.  A column without a name is named after its place.
A name that occurs again is numbered, from one on and past the numbers that would give a name of
the header; columns that have a name of their own come first in this, so that they keep it.

Main results:

- `length_columnNames`: every column has its name.
-/

namespace FilterQuery.Csv

/-- The name of a column in its place, before repeated names are numbered. -/
def nameAt (place : Nat) (name : String) : String :=
  if name.isEmpty then "Unnamed: " ++ toString place else name

/-- The names of a header while they are numbered, and the next number of each name that has
occurred. -/
structure Numbering where
  names : List String
  next : List (String × Nat) := []

namespace Numbering

/-- The least number from a given one on with which a name is not in the header. -/
def freeNumber (names : List String) (name : String) (least : Nat) : Nat :=
  ((List.range' least (names.length + 1)).find? fun n =>
    !names.contains (name ++ "." ++ toString n)).getD least

/-- Numbers the name at one place if it has occurred before. -/
def visit (numbering : Numbering) (place : Nat) : Numbering :=
  let name := numbering.names.getD place ""
  match numbering.next.lookup name with
  | none => { numbering with next := (name, 1) :: numbering.next }
  | some least =>
      let n := freeNumber numbering.names name least
      let numbered := name ++ "." ++ toString n
      { names := numbering.names.set place numbered
        next := (numbered, 1) :: (name, n + 1) :: numbering.next }

/-- Numbering a name leaves as many names as there were. -/
@[simp]
theorem length_visit (numbering : Numbering) (place : Nat) :
    (numbering.visit place).names.length = numbering.names.length := by
  simp only [visit]
  split <;> simp

/-- Numbering names leaves as many names as there were. -/
theorem length_foldl_visit (places : List Nat) (numbering : Numbering) :
    (places.foldl visit numbering).names.length = numbering.names.length := by
  induction places generalizing numbering with
  | nil => rfl
  | cons place rest ih => rw [List.foldl_cons, ih, length_visit]

end Numbering

/-- The names of the columns. -/
def columnNames (header : List String) : List String :=
  let places := List.range header.length
  let isNamed (place : Nat) : Bool := !(header.getD place "").isEmpty
  let order := places.filter isNamed ++ places.filter fun place => !isNamed place
  (order.foldl Numbering.visit ⟨header.zipIdx.map fun (name, place) => nameAt place name, []⟩).names

/-- Every column has its name. -/
@[simp]
theorem length_columnNames (header : List String) :
    (columnNames header).length = header.length := by
  simp [columnNames, Numbering.length_foldl_visit]

end FilterQuery.Csv
