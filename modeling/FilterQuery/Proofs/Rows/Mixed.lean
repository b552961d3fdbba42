import FilterQuery.Proofs.FullRecord
import FilterQuery.Proofs.Rows.Undo
import FilterQuery.Submission

/-!
# Rows in any form

A list of rows may hold rows and conditions that were built before, and data.  If it holds nothing
but such rows they are taken as they are; otherwise every item is read, and what was built before is
read from the fields that it shows.  Both ways come to the same: a row shows all that it is, so it is
read back from its fields, and what an item stands for depends on the item alone.  Any part of the
items may thus be read beforehand, and neither the query nor the previews nor the submission of the
rows is another one.

Main results:

- `Reading.run_row_restated_condition`, `Reading.run_row_restated_row`: what was built before is
  read back from the fields that it shows.
- `Input.Denotes.sameRow`: what an item stands for is one row, up to an identifier that was drawn.
- `Reading.exists_run_mixedRows`: a list of items is read as what each of them stands for.
- `Rows.readAlike_of_givenAs`: items that were read beforehand stand for the same rows.
- `Rows.given_in_any_form`: it makes no difference which of the items were.
-/

namespace FilterQuery

open Number

/-! ## What an item stands for -/

/-- Whether data comes without an identifier, so that one is drawn when it is read. -/
def Input.lacksId : Input → Bool
  | object fields => (get? "id" fields).isNone
  | _ => false

/-- Whether two rows are the same, but for identifiers that were drawn while an item was read. -/
structure Input.SameRow (item : Input) (row other : Row) : Prop where
  content : row.withoutId = other.withoutId
  id : item.lacksId = false → row.id = other.id

/-- Which row an item of a list stands for.  A row that was built before stands for itself, and a
condition for the row that states no relation.  Data stands for what a list of nothing else is read
as, from some supply of identifiers. -/
inductive Input.Denotes : Input → Row → Prop
  | row (r : Row) : Denotes (.node (.leaf (.row r))) r
  | condition (c : Condition) : Denotes (.node (.leaf (.plain c))) (c.toRow none)
  | data {fields : List (String × Input)} {r : Row} {ids left : IdSupply}
      (h : (Reading.rows (.list [.object fields])).run ids = .ok ([r], left)) :
      Denotes (.object fields) r

/-- An item as it is given: as it stands, or as a row that was read from it beforehand. -/
inductive Input.GivenAs (item : Input) : Input → Prop
  | unchanged : GivenAs item item
  | read {r : Row} (h : item.Denotes r) : GivenAs item (.node (.leaf (.row r)))

namespace Reading

variable {ids left : IdSupply}

/-! ## What was built before -/

/-- A condition shows every field under its plain name. -/
theorem recordedIn_fields (c : Condition) : c.RecordedIn (Input.ofFields c.fields) where
  kind := ⟨by rintro _ ⟨⟩; rfl, rfl⟩
  id := ⟨"id", rfl⟩
  field := ⟨"field", rfl⟩
  operator := ⟨"operator", rfl⟩
  value := ⟨"value", rfl⟩
  lowerKind := ⟨"min_operator", rfl⟩
  lower := ⟨"min_value", rfl⟩
  upperKind := ⟨"max_operator", rfl⟩
  upper := ⟨"max_value", rfl⟩

/-- A condition that was built before is read as the row that states no relation. -/
theorem run_row_restated_condition (c : Condition) (ids : IdSupply) :
    (row (restated (.node (.leaf (.plain c))))).run ids = .ok (c.toRow none, ids) := by
  have hcondition := run_condition_recordedIn (recordedIn_fields c) ids
  exact run_seq_ok (run_map_eq_ok_iff.mpr ⟨c, hcondition, rfl⟩) rfl

/-- A row that was built before is read back as it is. -/
theorem run_row_restated_row (r : Row) (ids : IdSupply) :
    (row (restated (.node (.leaf (.row r))))).run ids = .ok (r, ids) := by
  -- A row shows the fields of the condition that it states, and its relation behind them.
  have hfields : Input.ofFields r.fields = Input.set "relation"
      (.ofValue (Relation.field r.relation)) (Input.ofFields r.toCondition.fields) := rfl
  change (rowFields (Input.ofFields r.fields)).run ids = _
  rw [hfields]
  exact run_rowFields_set_relation (run_row_restated_condition r.toCondition ids) r.relation

/-! ## Single items -/

/-- A list of one item is read as a single row when the item is. -/
theorem run_rows_singleton_iff {item : Input} {r : Row} :
    (rows (.list [item])).run ids = .ok ([r], left) ↔ (row item).run ids = .ok (r, left) := by
  constructor
  · intro h
    rcases run_seq_eq_ok_iff.mp h with ⟨_, middle, rest, hmap, hrest, hcons⟩
    rcases run_map_eq_ok_iff.mp hmap with ⟨first, hfirst, rfl⟩
    rcases run_pure_eq_ok_iff.mp hrest with ⟨rfl, rfl⟩
    rcases List.singleton_inj.mp hcons with rfl
    exact run_within_eq_ok_iff.mp hfirst
  · intro h
    exact run_seq_ok (run_map_eq_ok_iff.mpr ⟨r, run_within_eq_ok_iff.mpr h, rfl⟩) rfl

/-- The data of a row has the identifier that it states with any supply. -/
theorem id_eq_of_run_rowFields {fields : List (String × Input)} {a b : Row}
    {others rest : IdSupply} (hid : (Input.get? "id" fields).isNone = false)
    (ha : (rowFields fields).run ids = .ok (a, left))
    (hb : (rowFields fields).run others = .ok (b, rest)) : a.id = b.id := by
  obtain ⟨input, hinput⟩ : ∃ input, Input.get? "id" fields = some input := by
    rwa [Option.isNone_eq_false_iff, Option.isSome_iff_exists] at hid
  have hread : identifier fields = within (.field "id") (text input) := by
    simp [identifier, field, Input.find?, hinput]
  have hignores : IgnoresSupply (identifier fields) := by
    rw [hread]
    exact (ignoresSupply_text input).within
  have hfirst := (hignores.run_eq_ok_iff.mp (run_rowFields ha)).1
  have hsecond := (hignores.run_eq_ok_iff.mp (run_rowFields hb)).1
  exact hfirst.unique hsecond

end Reading

namespace Input.Denotes

variable {item : Input} {r other : Row}

/-- An item stands for one row, up to an identifier that was drawn for it. -/
theorem sameRow (h : item.Denotes r) (hother : item.Denotes other) : item.SameRow r other := by
  cases h with
  | row =>
      cases hother
      exact ⟨rfl, fun _ => rfl⟩
  | condition =>
      cases hother
      exact ⟨rfl, fun _ => rfl⟩
  | @data fields _ ids left h =>
      rcases hother with _ | _ | @⟨_, _, others, rest, hother⟩
      rw [Reading.run_rows_singleton_iff] at h hother
      refine ⟨?_, fun hid => Reading.id_eq_of_run_rowFields hid h hother⟩
      have hsteady := Reading.steady_row (.object fields) ids others
      rw [h, hother] at hsteady
      cases hsteady with
      | ok hsame => exact hsame

/-- What stands for a row is read as one with any supply of identifiers. -/
theorem exists_run (h : item.Denotes r) (ids : IdSupply) :
    ∃ found left, (Reading.row (Reading.restated item)).run ids = .ok (found, left) ∧
      item.Denotes found := by
  cases h with
  | row => exact ⟨r, ids, Reading.run_row_restated_row r ids, .row r⟩
  | condition c => exact ⟨_, ids, Reading.run_row_restated_condition c ids, .condition c⟩
  | data h =>
      obtain ⟨⟨found, left⟩, hfound⟩ :=
        Reading.exists_run_row (Reading.run_rows_singleton_iff.mp h) ids
      exact ⟨found, left, hfound, .data (Reading.run_rows_singleton_iff.mpr hfound)⟩

end Input.Denotes

/-! ## Lists of items -/

/-- What stands for a row still does if it was read beforehand. -/
theorem Input.exists_denotes_of_givenAs {items given : List Input}
    (h : ∀ item ∈ items, ∃ r, item.Denotes r) (hgiven : List.Forall₂ GivenAs items given) :
    ∀ item ∈ given, ∃ r, item.Denotes r := by
  induction hgiven with
  | nil => exact h
  | cons hitem _ ih =>
      rw [List.forall_mem_cons] at h ⊢
      refine ⟨?_, ih h.2⟩
      cases hitem with
      | unchanged => exact h.1
      | @read r _ => exact ⟨r, .row r⟩

namespace Reading

/-- Rows that were built before are what their items stand for. -/
theorem denotes_of_mapM_builtRow? {items : List Input} {built : List Row}
    (h : items.mapM builtRow? = some built) : List.Forall₂ Input.Denotes items built := by
  induction items generalizing built with
  | nil =>
      rcases Option.some.inj h with rfl
      exact .nil
  | cons item rest ih =>
      simp only [List.mapM_cons, Option.bind_eq_bind, Option.bind_eq_some_iff, Option.pure_def,
        Option.some.injEq] at h
      rcases h with ⟨r, hr, below, hbelow, rfl⟩
      unfold builtRow? at hr
      split at hr
      · rcases Option.some.inj hr with rfl
        exact .cons (.row _) (ih hbelow)
      · contradiction

variable {items : List Input}

/-- Items that stand for rows are read one after the other. -/
theorem exists_run_itemsFrom (h : ∀ item ∈ items, ∃ r, item.Denotes r) (index : Nat)
    (ids : IdSupply) :
    ∃ rows left, (itemsFrom row index (items.map restated)).run ids = .ok (rows, left) ∧
      List.Forall₂ Input.Denotes items rows := by
  induction items generalizing index ids with
  | nil => exact ⟨[], ids, rfl, .nil⟩
  | cons item rest ih =>
      rw [List.forall_mem_cons] at h
      obtain ⟨r, hr⟩ := h.1
      obtain ⟨first, middle, hfirst, hdenotes⟩ := hr.exists_run ids
      obtain ⟨below, left, hbelow, hrest⟩ := ih h.2 (index + 1) middle
      refine ⟨first :: below, left, ?_, .cons hdenotes hrest⟩
      exact run_seq_ok (run_map_eq_ok_iff.mpr ⟨first, run_within_eq_ok_iff.mpr hfirst, rfl⟩) hbelow

/-- A list whose items stand for rows is read as these, whether or not it is taken as it is. -/
theorem exists_run_mixedRows (h : ∀ item ∈ items, ∃ r, item.Denotes r) (ids : IdSupply) :
    ∃ rows left, (mixedRows (.list items)).run ids = .ok (rows, left) ∧
      List.Forall₂ Input.Denotes items rows := by
  change ∃ rows left, (mixedItems items).run ids = .ok (rows, left) ∧ _
  unfold mixedItems
  split
  · next built hbuilt => exact ⟨built, ids, rfl, denotes_of_mapM_builtRow? hbuilt⟩
  · exact exists_run_itemsFrom h 0 ids

end Reading

/-! ## Rows that were read twice -/

/-- A row can be used or not whatever its identifier is. -/
theorem Row.isUsable_withoutId (row : Row) : row.withoutId.isUsable = row.isUsable :=
  row.toCondition.isUsable_of_id ""

namespace Input.SameRow

variable {item : Input} {row other : Row}

theorem isUsable_eq (h : item.SameRow row other) : row.isUsable = other.isUsable := by
  rw [← row.isUsable_withoutId, h.content, other.isUsable_withoutId]

theorem withRelation (h : item.SameRow row other) (relation : Option Relation) :
    item.SameRow (row.withRelation relation) (other.withRelation relation) where
  content := congrArg (Row.withRelation · relation) h.content
  id := h.id

end Input.SameRow

namespace Rows

/-- Rows that were read from the same items twice: they are the same, one by one, but for the
identifiers that were drawn. -/
inductive ReadAlike : List Input → List Row → List Row → Prop
  | nil : ReadAlike [] [] []
  | cons {item : Input} {row other : Row} {items : List Input} {rows others : List Row}
      (first : item.SameRow row other) (below : ReadAlike items rows others) :
      ReadAlike (item :: items) (row :: rows) (other :: others)

/-- Items that were read beforehand stand for the same rows as before. -/
theorem readAlike_of_givenAs {items given : List Input} {rows others : List Row}
    (hgiven : List.Forall₂ Input.GivenAs items given)
    (hrows : List.Forall₂ Input.Denotes items rows)
    (hothers : List.Forall₂ Input.Denotes given others) : ReadAlike items rows others := by
  induction hgiven generalizing rows others with
  | nil =>
      cases hrows
      cases hothers
      exact .nil
  | cons hitem _ ih =>
      rcases hrows with _ | ⟨hrow, hbelow⟩
      rcases hothers with _ | ⟨hother, hrest⟩
      refine .cons ?_ (ih hbelow hrest)
      cases hitem with
      | unchanged => exact hrow.sameRow hother
      | read hread =>
          -- A row that was read beforehand stands for itself now.
          cases hother
          exact hrow.sameRow hread

namespace ReadAlike

variable {items : List Input} {rows others : List Row}

/-- Without identifiers the rows are the same. -/
theorem map_withoutId (h : ReadAlike items rows others) :
    rows.map Row.withoutId = others.map Row.withoutId := by
  induction h with
  | nil => rfl
  | cons first _ ih => rw [List.map_cons, List.map_cons, first.content, ih]

/-- The rows that can be used were read from the same ones of the items. -/
theorem usable (h : ReadAlike items rows others) :
    ∃ kept, kept.Sublist items ∧ ReadAlike kept (Rows.usable rows) (Rows.usable others) := by
  induction h with
  | nil => exact ⟨[], .slnil, .nil⟩
  | @cons item row other items rows others first below ih =>
      obtain ⟨kept, hkept, hrest⟩ := ih
      have hsame := first.isUsable_eq
      unfold Rows.usable at hrest ⊢
      cases husable : row.isUsable with
      | false =>
          refine ⟨kept, hkept.cons item, ?_⟩
          rwa [List.filter_cons_of_neg (by simp [husable]),
            List.filter_cons_of_neg (by simp [← hsame, husable])]
      | true =>
          refine ⟨item :: kept, hkept.cons_cons item, ?_⟩
          rw [List.filter_cons_of_pos (by simp [husable]),
            List.filter_cons_of_pos (by simp [← hsame, husable])]
          exact .cons first hrest

/-- So they were if the first row loses its relation. -/
theorem withBase (h : ReadAlike items rows others) :
    ReadAlike items (Rows.withBase rows) (Rows.withBase others) := by
  cases h with
  | nil => exact .nil
  | cons first below => exact .cons (first.withRelation none) below

/-- The rows have the same document. -/
theorem document_eq (h : ReadAlike items rows others) (default : Relation) :
    (Filter.rows others).document default = (Filter.rows rows).document default := by
  have hsame : (Filter.rows others).withoutIds = (Filter.rows rows).withoutIds :=
    congrArg Filter.rows h.map_withoutId.symm
  rw [← Filter.document_withoutIds, hsame, Filter.document_withoutIds]

end ReadAlike

/-- A style that shows nothing of identifiers shows rows alike without them. -/
theorem preview_map_withoutId {style : Style}
    (h : ∀ c : Condition, style.condition c.withoutId = style.condition c) (default : Relation)
    (rows : List Row) :
    preview style default (rows.map Row.withoutId) = preview style default rows := by
  have husable : usable (rows.map Row.withoutId) = (usable rows).map Row.withoutId := by
    simp only [usable, List.filter_map, Function.comp_def, Row.isUsable_withoutId]
  have htexts : (usable rows).mapM (fun row => style.condition row.withoutId.toCondition) =
      (usable rows).mapM fun row => style.condition row.toCondition :=
    congrArg (usable rows).mapM (funext fun row => h row.toCondition)
  have hrelations : relations default ((usable rows).map Row.withoutId) =
      relations default (usable rows) := by
    simp [relations, ← List.map_tail, Row.withoutId]
  simp only [preview, husable, List.mapM_map, hrelations, Function.comp_def, htexts]

/-- The rows have the same previews. -/
theorem ReadAlike.preview_eq {items : List Input} {rows others : List Row}
    (h : ReadAlike items rows others) {style : Style} (hstyle : style ∈ [Style.plain, Style.markup])
    (default : Relation) :
    (Filter.rows others).preview style default none =
      (Filter.rows rows).preview style default none := by
  have hid : ∀ c : Condition, style.condition c.withoutId = style.condition c := by
    intro c
    rcases List.mem_pair.mp hstyle with rfl | rfl <;> rfl
  change preview style default others = preview style default rows
  rw [← preview_map_withoutId hid, ← h.map_withoutId, preview_map_withoutId hid]

end Rows

/-! ## Submissions -/

/-- What submitting rows that were read twice comes to: the same failure, nothing both times, or the
same submission, but for the identifiers that were drawn for its rows. -/
inductive SubmitsAlike (items : List Input) : Except DigitLimit (Option Submission) →
    Except DigitLimit (Option Submission) → Prop
  | stopped (limit : DigitLimit) : SubmitsAlike items (.error limit) (.error limit)
  | nothing : SubmitsAlike items (.ok none) (.ok none)
  | submitted {kept : List Input} {rows others : List Row} (label : Option String)
      (document : Value) (hkept : kept.Sublist items) (h : Rows.ReadAlike kept rows others) :
      SubmitsAlike items (.ok (some ⟨.rows rows, label, document⟩))
        (.ok (some ⟨.rows others, label, document⟩))

/-- The rows are submitted alike. -/
theorem Rows.ReadAlike.submit {items : List Input} {rows others : List Row}
    (h : ReadAlike items rows others) (default : Relation) (label : Option String) :
    SubmitsAlike items ((Filter.rows rows).submit default label)
      ((Filter.rows others).submit default label) := by
  obtain ⟨kept, hkept, husable⟩ := h.usable
  simp only [Filter.submit, Filter.usable?]
  generalize Rows.usable rows = first, Rows.usable others = second at husable
  cases husable with
  | nil => exact .nothing
  | @cons item row other items rows others hrow hbelow =>
      have hbase := (ReadAlike.cons hrow hbelow).withBase
      dsimp only
      rw [hbase.document_eq default]
      cases (Filter.rows (Rows.withBase (row :: rows))).document default with
      | error limit => exact .stopped limit
      | ok document => exact .submitted _ document hkept hbase

namespace Rows

/-- The form in which rows are given makes no difference.  A list of rows and conditions that were
built before, and of data from which rows can be read, is read as as many rows in the same order,
each of which is what its item stands for by itself.  If any part of the items is read beforehand
and given as rows, the list is read as the same rows, but for identifiers that are drawn, and these
have the same query document, the same previews and the same submission. -/
theorem given_in_any_form {items : List Input} (h : ∀ item ∈ items, ∃ r, item.Denotes r)
    (ids : IdSupply) :
    ∃ rows left, (Reading.mixedRows (.list items)).run ids = .ok (rows, left) ∧
      List.Forall₂ (fun item r => item.Denotes r ∧
        ∀ other, item.Denotes other → item.SameRow r other) items rows ∧
      ∀ given, List.Forall₂ Input.GivenAs items given → ∀ supply, ∃ others rest,
        (Reading.mixedRows (.list given)).run supply = .ok (others, rest) ∧
        ReadAlike items rows others ∧
        ∀ default, (Filter.rows others).document default = (Filter.rows rows).document default ∧
          (∀ style ∈ [Style.plain, Style.markup],
            (Filter.rows others).preview style default none =
              (Filter.rows rows).preview style default none) ∧
          ∀ label, SubmitsAlike items ((Filter.rows rows).submit default label)
            ((Filter.rows others).submit default label) := by
  obtain ⟨rows, left, hrun, hrows⟩ := Reading.exists_run_mixedRows h ids
  refine ⟨rows, left, hrun, hrows.imp fun _ _ hr => ⟨hr, fun _ => hr.sameRow⟩, ?_⟩
  intro given hgiven supply
  obtain ⟨others, rest, hagain, hothers⟩ :=
    Reading.exists_run_mixedRows (Input.exists_denotes_of_givenAs h hgiven) supply
  have halike := readAlike_of_givenAs hgiven hrows hothers
  refine ⟨others, rest, hagain, halike, fun default => ?_⟩
  refine ⟨?_, fun style hstyle => ?_, fun label => ?_⟩
  · exact halike.document_eq default
  · exact halike.preview_eq hstyle default
  · exact halike.submit default label

/-- A row that was built before, a condition that was, and data without an identifier are read
alike if the data is read beforehand, with other identifiers. -/
theorem mixture_given_in_another_form :
    let host : Row :=
      { id := "a", field := "host", operator := some .equal, value := .null, relation := some .or }
    let size : Condition :=
      { id := "b", field := "bytes", operator := some .range,
        lower := { inclusive := true, limit := .int 5 } }
    let status : Row :=
      { id := "n_000000000007", field := "status", operator := some .equal, value := .text "500",
        relation := some .or }
    let data : Input := .object [("field", .text "status"), ("operator", .text "is"),
      ("value", .text "500"), ("logic", .text "or")]
    let items : List Input := [.node (.leaf (.row host)), .node (.leaf (.plain size)), data]
    let given : List Input := [.node (.leaf (.row host)), .node (.leaf (.plain size)),
      .node (.leaf (.row status))]
    (∀ item ∈ items, ∃ r, item.Denotes r) ∧ List.Forall₂ Input.GivenAs items given ∧
      ∃ rows left others rest,
        (Reading.mixedRows (.list items)).run ⟨"n", 0⟩ = .ok (rows, left) ∧
          (Reading.mixedRows (.list given)).run ⟨"n", 3⟩ = .ok (others, rest) ∧
          ReadAlike items rows others ∧
          (Filter.rows others).document .and = (Filter.rows rows).document .and := by
  intro host size status data items given
  have hstatus : data.Denotes status := by
    have hread : (Reading.rows (.list [data])).run ⟨"n", 7⟩ = .ok ([status], ⟨"n", 8⟩) := rfl
    exact .data hread
  have hitems : ∀ item ∈ items, ∃ r, item.Denotes r := by
    rw [List.forall_mem_cons, List.forall_mem_cons, List.forall_mem_singleton]
    exact ⟨⟨_, .row host⟩, ⟨_, .condition size⟩, ⟨_, hstatus⟩⟩
  have hgiven : List.Forall₂ Input.GivenAs items given :=
    .cons .unchanged (.cons .unchanged (.cons (.read hstatus) .nil))
  obtain ⟨rows, left, hrun, _, hagain⟩ := given_in_any_form hitems ⟨"n", 0⟩
  obtain ⟨others, rest, hothers, halike, hsame⟩ := hagain given hgiven ⟨"n", 3⟩
  exact ⟨hitems, hgiven, rows, left, others, rest, hrun, hothers, halike, (hsame .and).1⟩

end Rows

end FilterQuery
