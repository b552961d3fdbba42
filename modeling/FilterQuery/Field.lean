import FilterQuery.Text.Search

/-!
# Fields

The name of a field tells how it is searched.  An exact field holds whole texts and is compared
with values as they are; it is named after the field that it indexes, with the suffix `.keyword`.
A date field is recognised by its name.

Main results:

- `isExact_append`: a name with the suffix is that of an exact field.
-/

namespace FilterQuery.Field

/-- The suffix of exact fields. -/
def exactSuffix : String := ".keyword"

/-- Whether a field is compared with values as they are. -/
def isExact (field : String) : Bool :=
  exactSuffix.toList.isSuffixOf field.toList

/-- The words in the name of a field that holds dates, in any case of their letters. -/
def dateWords : List String := ["date", "time"]

/-- Whether a field holds dates. -/
def isDate (field : String) : Bool :=
  field == "@timestamp" ||
    dateWords.any fun word => Text.occursIn word.toList (field.toList.map Char.toLower)

/-- The field that an exact field indexes; any other field is its own base. -/
def base (field : String) : String :=
  if isExact field then
    String.ofList (field.toList.take (field.length - exactSuffix.length))
  else field

/-- A name with the suffix is that of an exact field. -/
@[simp]
theorem isExact_append (field : String) : isExact (field ++ exactSuffix) = true := by
  simp [isExact, String.toList_append, List.isSuffixOf_iff_suffix]

end FilterQuery.Field
