import FilterQuery.Table
import Mathlib.Data.List.Nodup
import Mathlib.Data.List.Pairwise

/-!
# The fields of a table

A table lists every column as a field, and beside a column that may hold text the exact field that
indexes it.  A lookup takes the suffix off an exact field and goes by the name that is left.  So the
exact field that is listed for a column leads back to the column, and the name of the column does so
unless it has the suffix itself: then another column is read, or none.

Main results:

- `Field.base_append`, `Field.base_eq_self_iff`: what is left of a name without the suffix.
- `lookup_eq`: a lookup reads the column that a field stands for.
- `column?_eq_some_iff`: a field stands for the column of its base.
- `nodup_fields_iff`: when no field is listed twice.
- `fieldsReadable_iff`: every field is looked up in the column that it is listed for exactly when no
  column is named like an exact field.
-/

namespace FilterQuery

/-! ## Names with the suffix -/

namespace Field

/-- Without its suffix, the name of an exact field is the one that it was made from. -/
@[simp]
theorem base_append (name : String) : base (name ++ exactSuffix) = name := by
  rw [base, if_pos (isExact_append name), String.length_append, Nat.add_sub_cancel,
    String.toList_append, ← String.length_toList, List.take_left, String.ofList_toList]

/-- An exact field is named after its base. -/
theorem append_base {field : String} (h : isExact field = true) :
    base field ++ exactSuffix = field := by
  rw [isExact, List.isSuffixOf_iff_suffix] at h
  rcases h with ⟨front, hfront⟩
  have hfield : field = String.ofList front ++ exactSuffix := by
    rw [← String.toList_inj, String.toList_append, String.toList_ofList, hfront]
  rw [hfield, base_append]

/-- A name is not the same with the suffix. -/
theorem append_ne_self (name : String) : name ++ exactSuffix ≠ name := by
  intro h
  have hlength := congrArg String.length h
  rw [String.length_append] at hlength
  have hsuffix : exactSuffix.length = 8 := by decide
  omega

/-- A field is its own base exactly when it is not an exact one. -/
theorem base_eq_self_iff {field : String} : base field = field ↔ isExact field = false := by
  cases h : isExact field with
  | false => simp [base, h]
  | true =>
      refine iff_of_false (fun hbase => ?_) (Bool.noConfusion)
      have happend := append_base h
      rw [hbase] at happend
      exact append_ne_self field happend

end Field

/-! ## The values that are given -/

namespace Table

/-- The texts that contain a search term; without one, all of them. -/
def matching (term : Option String) (texts : List String) : List String :=
  let sought := Text.trim (term.getD "")
  if sought.isEmpty then texts else texts.filter (containsTerm sought)

/-- Texts in ascending order, each once. -/
def ascending (texts : List String) : List String :=
  (texts.foldl Suggestion.insertText []).mergeSort fun a b => decide (a ≤ b)

end Table

/-! ## The fields of a column -/

/-- Whether a column may hold text. -/
def ColumnKind.mayHoldText : ColumnKind → Bool
  | text | mixed => true
  | integer | fraction | truth => false

namespace Column

/-- The fields that are listed for a column. -/
def fields (column : Column) : List String :=
  column.name :: if column.kind.mayHoldText then [column.name ++ Field.exactSuffix] else []

/-- The name of a column is listed, and the exact field if the column may hold text. -/
theorem mem_fields_iff {column : Column} {field : String} :
    field ∈ column.fields ↔ field = column.name ∨
      column.kind.mayHoldText = true ∧ field = column.name ++ Field.exactSuffix := by
  rw [fields, List.mem_cons]
  cases column.kind.mayHoldText <;> simp

/-- No field is listed twice for one column. -/
theorem nodup_fields (column : Column) : column.fields.Nodup := by
  unfold fields
  split
  · simpa using (Field.append_ne_self column.name).symm
  · simp

/-- What is listed for two columns differs, unless the one is named like the exact field of the
other. -/
theorem disjoint_fields {column other : Column} (hname : column.name ≠ other.name)
    (hexact : column.kind.mayHoldText = true → column.name ++ Field.exactSuffix ≠ other.name)
    (hother : other.kind.mayHoldText = true → other.name ++ Field.exactSuffix ≠ column.name) :
    List.Disjoint column.fields other.fields := by
  intro field hfield hsame
  rcases mem_fields_iff.mp hfield with rfl | ⟨htext, rfl⟩
  · rcases mem_fields_iff.mp hsame with h | ⟨htext, h⟩
    · exact hname h
    · exact hother htext h.symm
  · rcases mem_fields_iff.mp hsame with h | ⟨_, h⟩
    · exact hexact htext h
    · have hbase := congrArg Field.base h
      rw [Field.base_append, Field.base_append] at hbase
      exact hname hbase

/-- The values of a column that contain a search term, as many of them as are asked for. -/
def lookup (column : Column) (term : Option String) (size : Option Int) :
    Except Error (List String) :=
  match column.texts with
  | .error limit => .error (.digitLimit limit)
  | .ok texts => .ok (Table.firstTexts size (Table.ascending (Table.matching term texts)))

end Column

namespace Table

variable {table : Table} {column : Column} {field : String}

/-- A table lists the fields of its columns. -/
theorem fields_eq_flatMap (table : Table) : table.fields = table.flatMap Column.fields := by
  unfold fields
  refine congrArg (List.flatMap · table) (funext fun column => ?_)
  unfold Column.fields
  cases column.kind <;> rfl

/-! ## The column that is read -/

/-- The column that a field stands for. -/
def column? (table : Table) (field : String) : Option Column :=
  table.find? fun column => column.name == Field.base field

/-- A lookup reads the column that a field stands for. -/
theorem lookup_eq (table : Table) (field : String) (term : Option String) (size : Option Int) :
    table.lookup field term size =
      (table.column? field).elim (.error (.unknownField field)) (·.lookup term size) := by
  unfold lookup column?
  cases table.find? fun column => column.name == Field.base field <;> rfl

/-- A field stands for no column exactly when no column is named like its base. -/
theorem column?_eq_none_iff :
    table.column? field = none ↔ Field.base field ∉ table.map Column.name := by
  rw [column?, List.find?_eq_none, List.mem_map]
  simp

/-- A field stands for the column that is named like its base. -/
theorem column?_eq_some_iff (hdistinct : (table.map Column.name).Nodup) :
    table.column? field = some column ↔ column ∈ table ∧ column.name = Field.base field := by
  constructor
  · intro h
    exact ⟨List.mem_of_find?_eq_some h, by simpa using List.find?_some h⟩
  · rintro ⟨hmem, hname⟩
    cases h : table.column? field with
    | none =>
        rw [column?_eq_none_iff, ← hname] at h
        exact absurd (List.mem_map_of_mem hmem) h
    | some other =>
        have hother : other.name = Field.base field := by simpa using List.find?_some h
        have hfound : other ∈ table := List.mem_of_find?_eq_some h
        rw [List.inj_on_of_nodup_map hdistinct hfound hmem (hother.trans hname.symm)]

/-- A field that is listed for a column stands for it, unless it is the name of the column and has
the suffix. -/
theorem column?_of_mem_fields (hdistinct : (table.map Column.name).Nodup) (hmem : column ∈ table)
    (hfield : field ∈ column.fields) :
    table.column? field = some column ↔
      field = column.name ++ Field.exactSuffix ∨ Field.isExact column.name = false := by
  rw [column?_eq_some_iff hdistinct, and_iff_right hmem]
  rcases Column.mem_fields_iff.mp hfield with rfl | ⟨_, rfl⟩
  · rw [eq_comm, Field.base_eq_self_iff]
    constructor
    · exact Or.inr
    · rintro (h | h)
      · exact absurd h.symm (Field.append_ne_self column.name)
      · exact h
  · rw [Field.base_append]
    exact iff_of_true rfl (Or.inl rfl)

/-- No field is listed twice exactly when no column is named like the exact field that is listed for
a column. -/
theorem nodup_fields_iff (hdistinct : (table.map Column.name).Nodup) :
    table.fields.Nodup ↔ ∀ column ∈ table, column.kind.mayHoldText = true →
      column.name ++ Field.exactSuffix ∉ table.map Column.name := by
  rw [fields_eq_flatMap, List.nodup_flatMap]
  constructor
  · rintro ⟨_, hdisjoint⟩ column hcolumn htext hnamed
    obtain ⟨other, hother, hname⟩ := List.mem_map.mp hnamed
    have hne : column ≠ other := by
      rintro rfl
      exact Field.append_ne_self column.name hname.symm
    have hsymm : Std.Symm (Function.onFun List.Disjoint Column.fields) :=
      ⟨fun _ _ h => List.disjoint_symm h⟩
    have hboth := hdisjoint.forall hcolumn hother hne
    exact hboth (Column.mem_fields_iff.mpr (.inr ⟨htext, rfl⟩))
      (Column.mem_fields_iff.mpr (.inl hname.symm))
  · intro h
    refine ⟨fun column _ => column.nodup_fields, ?_⟩
    refine List.Pairwise.imp_of_mem ?_ (List.pairwise_map.mp hdistinct)
    intro column other hcolumn hother hname
    refine Column.disjoint_fields hname (fun htext hexact => ?_) (fun htext hexact => ?_)
    · exact h column hcolumn htext (List.mem_map.mpr ⟨other, hother, hexact.symm⟩)
    · exact h other hother htext (List.mem_map.mpr ⟨column, hcolumn, hexact.symm⟩)

/-- Whether every field is looked up in the column that it is listed for, and none is listed
twice. -/
structure FieldsReadable (table : Table) : Prop where
  found : ∀ column ∈ table, ∀ field ∈ column.fields, table.column? field = some column
  nodup : table.fields.Nodup

/-- The fields of a table whose columns are named differently can be read exactly when no column is
named like an exact field.  The fields of a table are those that are listed for its columns.  The
exact field of a column is always looked up in the column.  The name of a column that has the suffix
never is: the column that its base names is read, or there is none, which is an unknown field.  A
field is listed twice only where a column is named like the exact field of another one. -/
theorem fieldsReadable_iff (hdistinct : (table.map Column.name).Nodup) :
    (table.FieldsReadable ↔ ∀ column ∈ table, Field.isExact column.name = false) ∧
    (∀ column ∈ table, ∀ field ∈ column.fields, table.column? field = some column ↔
      field = column.name ++ Field.exactSuffix ∨ Field.isExact column.name = false) ∧
    (∀ field, table.column? field = none ↔ Field.base field ∉ table.map Column.name) ∧
    (table.fields.Nodup ↔ ∀ column ∈ table, column.kind.mayHoldText = true →
      column.name ++ Field.exactSuffix ∉ table.map Column.name) ∧
    table.fields = table.flatMap Column.fields ∧
    ∀ field term size, table.lookup field term size =
      (table.column? field).elim (.error (.unknownField field)) (·.lookup term size) := by
  refine ⟨⟨fun h column hcolumn => ?_, fun h => ⟨?_, ?_⟩⟩, ?_, ?_, nodup_fields_iff hdistinct,
    table.fields_eq_flatMap, table.lookup_eq⟩
  · have hname := h.found column hcolumn column.name (Column.mem_fields_iff.mpr (.inl rfl))
    rw [column?_eq_some_iff hdistinct] at hname
    exact Field.base_eq_self_iff.mp hname.2.symm
  · intro column hcolumn field hfield
    exact (column?_of_mem_fields hdistinct hcolumn hfield).mpr (.inr (h column hcolumn))
  · rw [nodup_fields_iff hdistinct]
    intro column _ _ hnamed
    obtain ⟨other, hother, hname⟩ := List.mem_map.mp hnamed
    have hexact := Field.isExact_append column.name
    rw [← hname, h other hother] at hexact
    contradiction
  · exact fun column hcolumn field => column?_of_mem_fields hdistinct hcolumn
  · exact fun field => column?_eq_none_iff

/-- Hosts and sizes can be read by every field that is listed for them, but not any more beside a
column that has the name of the exact field for the hosts. -/
theorem fieldsReadable_of_plain_names :
    let hosts := Column.ofCells "host" [.text "db01", .null]
    let sizes := Column.ofCells "bytes" [.int 120, .int 87]
    let exact := Column.ofCells "host.keyword" [.text "web01"]
    (([hosts, sizes].map Column.name).Nodup ∧ FieldsReadable [hosts, sizes]) ∧
    (([hosts, sizes, exact].map Column.name).Nodup ∧ ¬FieldsReadable [hosts, sizes, exact]) := by
  intro hosts sizes exact
  have hplain : ([hosts, sizes].map Column.name).Nodup := by decide
  have hnamed : ([hosts, sizes, exact].map Column.name).Nodup := by decide
  refine ⟨⟨hplain, ?_⟩, hnamed, ?_⟩
  · rw [(fieldsReadable_iff hplain).1]
    decide
  · rw [(fieldsReadable_iff hnamed).1]
    decide

/-- A column that is named like an exact field is listed by its name, but a lookup finds no such
field.  Beside the column that it seems to index, its name is listed twice and stands for the other
column. -/
theorem column_named_like_exact_field :
    let exact := Column.ofCells "host.keyword" [.text "web01"]
    let base := Column.ofCells "host" [.text "db01"]
    (fields [exact] = ["host.keyword", "host.keyword.keyword"] ∧
      lookup [exact] "host.keyword" none none = .error (.unknownField "host.keyword")) ∧
    fields [base, exact] = ["host", "host.keyword", "host.keyword", "host.keyword.keyword"] ∧
      column? [base, exact] "host.keyword" = some base := by
  refine ⟨⟨?_, ?_⟩, ?_, ?_⟩ <;> rfl

end Table

end FilterQuery
