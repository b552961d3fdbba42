import FilterQuery.Proofs.HalfFilled
import FilterQuery.Proofs.Identifiers
import FilterQuery.Proofs.UpdatedLeaf

/-!
# Undoing edits of rows

A row that was put in is taken out again from the place that it got, and nothing is left of it.
Where no row is meant, an edit leaves the rows as they are.  A removal keeps all other rows in their
order, with every field and relation; only the row that becomes the first one loses its relation.

Main results:

- `Reading.exists_run_newRow`: what may be made a row is made one, whatever joins it.
- `remove_middle`: what stands around a row is what is left without it.
- `exists_insertAfter`, `exists_add`: the rows with a new one in them, and how it is joined.
- `getElem?_remove`: where the other rows stand after a removal, and what becomes of them.
- `edits_undone`: adding, inserting and removing rows, and edits that mean no row.
-/

namespace FilterQuery

/-! ## What may be made a row -/

namespace Reading

/-- Whether data may be made a new row: nothing, which stands for an empty row, a row that was built
before, or the data of a row. -/
def IsRow (input : Input) : Prop :=
  input = .null ∨ ∃ ids result, (row input).run ids = .ok result

/-- Whether a row is read does not depend on the supply of identifiers. -/
theorem exists_run_row {input : Input} {ids : IdSupply} {result : Row × IdSupply}
    (h : (row input).run ids = .ok result) (others : IdSupply) :
    ∃ result, (row input).run others = .ok result := by
  have hsteady := steady_row input ids others
  rw [h] at hsteady
  generalize (row input).run others = outcome at hsteady
  cases hsteady with
  | ok _ _ other => exact ⟨_, rfl⟩

/-- The data of a row are read as the same row whatever relation is put into them. -/
theorem run_rowFields_set_relation {fields : List (String × Input)} {ids left : IdSupply} {r : Row}
    (h : (rowFields fields).run ids = .ok (r, left)) (relation : Option Relation) :
    (rowFields (Input.set "relation" (.ofValue (Relation.field relation)) fields)).run ids =
      .ok (r.withRelation relation, left) := by
  refine run_rowFields_eq_ok_iff.mpr ⟨?_, fun others => ?_⟩
  · rw [condition_set_relation]
    exact (run_rowFields_eq_ok_iff.mp h).1
  · refine run_field_of_get? (Input.get?_set_self "relation" _ fields) ?_
    unfold Reading.relation
    rw [Relation.resolve_ofValue_field]
    rfl

/-- What may be made a row is made one, and joined as it is to be. -/
theorem exists_run_newRow {input : Input} (h : IsRow input) (relation : Option Relation)
    (ids : IdSupply) :
    ∃ new left, (newRow relation input).run ids = .ok (new, left) ∧ new.relation = relation := by
  have hrun : ∃ new left, (newRow relation input).run ids = .ok (new, left) := by
    rcases h with rfl | ⟨others, result, hread⟩
    · exact ⟨_, _, run_map_eq_ok_iff.mpr ⟨ids.mint.1, rfl, rfl⟩⟩
    · -- It was read with some identifiers, so it is read with those that are left here.
      obtain ⟨⟨r, left⟩, hrow⟩ := exists_run_row hread ids
      unfold row at hrow
      split at hrow
      · exact ⟨_, _, run_pure_eq_ok_iff.mpr ⟨rfl, rfl⟩⟩
      · exact ⟨_, _, run_rowFields_set_relation hrow relation⟩
      · exact absurd hrow run_fail_ne_ok
  obtain ⟨new, left, hnew⟩ := hrun
  exact ⟨new, left, hnew, relation_newRow hnew⟩

end Reading

namespace Rows

variable {default : Relation} {rows : List Row} {ids : IdSupply} {relation row : Input}
  {stated : Option Relation}

/-! ## Places -/

/-- A number means the row at its place. -/
theorem place?_natCast {place : Nat} (h : place < rows.length) :
    place? rows place = some place :=
  if_pos (by omega)

/-- A number that is no place means no row. -/
theorem place?_eq_none {index : Int} (h : ¬(0 ≤ index ∧ index < rows.length)) :
    place? rows index = none :=
  if_neg h

/-- The place of a row after another one was taken out. -/
def placeWithout (removed place : Nat) : Nat :=
  if place < removed then place else place - 1

/-! ## Removals -/

/-- A row that is not the first one is taken out, and nothing else changes. -/
theorem remove_natCast_succ {place : Nat} (h : place + 1 < rows.length) :
    remove rows (place + 1 : Nat) = rows.eraseIdx (place + 1) := by
  rw [remove, place?_natCast h]
  rfl

/-- The first row is taken out, and the next one loses its relation. -/
theorem remove_zero (first : Row) (below : List Row) :
    remove (first :: below) 0 = withBase below := by
  have hplace : place? (first :: below) 0 = some 0 := place?_natCast (Nat.succ_pos _)
  rw [remove, hplace]
  rfl

/-- What stands around a row is what is left without it, unless the row is the first one. -/
theorem remove_middle {before : List Row} (h : before ≠ []) (new : Row) (after : List Row) :
    remove (before ++ new :: after) before.length = before ++ after := by
  obtain ⟨place, hplace⟩ := Nat.exists_eq_succ_of_ne_zero (mt List.length_eq_zero_iff.mp h)
  have hlt : place + 1 < (before ++ new :: after).length := by
    simp only [List.length_append, List.length_cons]
    omega
  rw [hplace, Nat.succ_eq_add_one, remove_natCast_succ hlt,
    List.eraseIdx_append_of_length_le (by omega), hplace, Nat.sub_self, List.eraseIdx_cons_zero]

/-- The last row is taken out again. -/
theorem remove_concat (rows : List Row) (new : Row) :
    remove (rows ++ [new]) rows.length = rows := by
  cases rows with
  | nil => exact remove_zero new []
  | cons first below =>
      rw [remove_middle (List.cons_ne_nil first below), List.append_nil]

/-- As many rows are left as there are others. -/
theorem length_remove {place : Nat} (h : place < rows.length) :
    (remove rows place).length + 1 = rows.length := by
  cases place with
  | zero =>
      rcases rows with _ | ⟨first, _ | ⟨second, rest⟩⟩
      · contradiction
      · rfl
      · change (remove (first :: second :: rest) 0).length + 1 = _
        rw [remove_zero]
        rfl
  | succ place => rw [remove_natCast_succ h, List.length_eraseIdx_add_one h]

/-- The other rows keep their order, and each of them all that it states; only a second row that
becomes the first one loses its relation. -/
theorem getElem?_remove {place other : Nat} (hplace : place < rows.length)
    (hother : other < rows.length) (hne : other ≠ place) :
    (remove rows place)[placeWithout place other]? =
      some (if place = 0 ∧ other = 1 then { rows[other] with relation := none }
        else rows[other]) := by
  cases place with
  | zero =>
      -- The rows are taken apart so far that the one that loses its relation has a name.
      rcases rows with _ | ⟨first, _ | ⟨second, rest⟩⟩
      · contradiction
      · rw [List.length_singleton] at hother
        omega
      · change (remove (first :: second :: rest) 0)[_]? = _
        rw [remove_zero]
        rcases other with _ | _ | other
        · contradiction
        · rfl
        · have hrest : other < rest.length := by
            simp only [List.length_cons] at hother
            omega
          simp [placeWithout, withBase, List.getElem?_eq_getElem hrest]
  | succ place =>
      rw [remove_natCast_succ hplace, List.getElem?_eraseIdx, placeWithout]
      by_cases hbefore : other < place + 1
      · simp [hbefore, List.getElem?_eq_getElem hother]
      · have hback : other - 1 + 1 = other := by omega
        have hbehind : ¬other - 1 < place + 1 := by omega
        simp [hbefore, hbehind, hback, List.getElem?_eq_getElem hother]

/-! ## Rows that are put in -/

/-- A stated relation is the one that counts, and the default if none is stated. -/
theorem relationOr_eq (h : Relation.resolve relation = .ok stated) :
    relationOr default relation = .ok (stated.getD default) := by
  rw [relationOr, h]
  rfl

/-- A row is put in below the one at a place, joined to it. -/
theorem exists_insertAfter (hrelation : Relation.resolve relation = .ok stated)
    (hrow : Reading.IsRow row) {place : Nat} (hplace : place < rows.length) (ids : IdSupply) :
    ∃ new left, insertAfter default rows place relation row ids =
        .ok (rows.take (place + 1) ++ new :: rows.drop (place + 1), left) ∧
      new.relation = some (stated.getD default) := by
  obtain ⟨new, left, hnew, hjoined⟩ :=
    Reading.exists_run_newRow hrow (some (stated.getD default)) ids
  refine ⟨new, left, ?_, hjoined⟩
  rw [insertAfter, place?_natCast hplace]
  simp only [relationOr_eq hrelation, Traversal.bind_eq_ok_iff, Except.ok.injEq, exists_eq_left']
  exact ⟨(new, left), Reading.call_eq_ok_iff.mpr hnew, rfl⟩

/-- A row is put in below all others, joined to the one above it if there is one. -/
theorem exists_add (hrelation : Relation.resolve relation = .ok stated)
    (hrow : Reading.IsRow row) (rows : List Row) (ids : IdSupply) :
    ∃ new left, add default rows relation row ids = .ok (rows ++ [new], left) ∧
      new.relation = if rows = [] then none else some (stated.getD default) := by
  obtain ⟨new, left, hnew, hjoined⟩ := Reading.exists_run_newRow hrow
    (if rows = [] then none else some (stated.getD default)) ids
  refine ⟨new, left, ?_, hjoined⟩
  have hcall := Reading.call_eq_ok_iff.mpr hnew
  cases rows with
  | nil =>
      rw [add_nil]
      exact Traversal.bind_eq_ok_iff.mpr ⟨(new, left), hcall, rfl⟩
  | cons first below =>
      rw [add_cons, relationOr_eq hrelation]
      exact Traversal.bind_eq_ok_iff.mpr
        ⟨_, rfl, Traversal.bind_eq_ok_iff.mpr ⟨(new, left), hcall, rfl⟩⟩

/-- What was put in below a row is taken out again. -/
theorem remove_take_append {place : Nat} (h : place < rows.length) (new : Row) :
    remove (rows.take (place + 1) ++ new :: rows.drop (place + 1)) (place + 1 : Nat) = rows := by
  have hlength : (rows.take (place + 1)).length = place + 1 := List.length_take_of_le h
  have hne : rows.take (place + 1) ≠ [] := List.ne_nil_of_length_eq_add_one hlength
  calc remove (rows.take (place + 1) ++ new :: rows.drop (place + 1)) (place + 1 : Nat)
      = rows.take (place + 1) ++ rows.drop (place + 1) := by
        simpa only [hlength] using remove_middle hne new (rows.drop (place + 1))
    _ = rows := List.take_append_drop _ rows

/-! ## Edits that mean no row -/

section NoRow

variable {index : Int} (h : ¬(0 ≤ index ∧ index < rows.length))
include h

/-- Nothing is put in where no row is meant, and nothing is read. -/
theorem insertAfter_of_no_row (relation row : Input) :
    insertAfter default rows index relation row ids = .ok (rows, ids) := by
  rw [insertAfter, place?_eq_none h]

/-- Nothing is taken out where no row is meant. -/
theorem remove_of_no_row : remove rows index = rows := by
  rw [remove, place?_eq_none h]

/-- Nothing is updated where no row is meant, and nothing is read. -/
theorem update_of_no_row (given : List (String × Input)) :
    update rows index given ids = .ok (rows, ids) := by
  rw [update, place?_eq_none h]

end NoRow

/-! ## Edits and their undoing -/

/-- Edits of rows are undone by removals and leave all else alone.  For every relation that can be
resolved and everything that may be made a row: what is inserted below any row or added at the end
is taken out again from the place that it got; where no row is meant, all edits leave the rows as
they are; and a removal leaves the other rows in their order with all that they state, except that
a second row that becomes the first one loses its relation. -/
theorem edits_undone (default : Relation) (rows : List Row) (ids : IdSupply)
    (hrelation : Relation.resolve relation = .ok stated) (hrow : Reading.IsRow row) :
    (∀ index : Int, 0 ≤ index → index < rows.length →
      ∃ edited left, insertAfter default rows index relation row ids = .ok (edited, left) ∧
        remove edited (index + 1) = rows) ∧
    (∃ edited left, add default rows relation row ids = .ok (edited, left) ∧
      remove edited rows.length = rows) ∧
    (∀ index : Int, ¬(0 ≤ index ∧ index < rows.length) →
      (∀ relation row, insertAfter default rows index relation row ids = .ok (rows, ids)) ∧
      remove rows index = rows ∧
      ∀ given, update rows index given ids = .ok (rows, ids)) ∧
    ∀ place < rows.length, (remove rows place).length + 1 = rows.length ∧
      ∀ other, (hother : other < rows.length) → other ≠ place →
        (remove rows place)[placeWithout place other]? =
          some (if place = 0 ∧ other = 1 then { rows[other] with relation := none }
            else rows[other]) := by
  refine ⟨fun index hnonneg hlt => ?_, ?_, fun index hno => ?_, fun place hplace => ?_⟩
  · obtain ⟨place, rfl⟩ := Int.eq_ofNat_of_zero_le hnonneg
    have hplace : place < rows.length := Int.ofNat_lt.mp hlt
    obtain ⟨new, left, hinsert, -⟩ := exists_insertAfter hrelation hrow hplace ids
    exact ⟨_, left, hinsert, remove_take_append hplace new⟩
  · obtain ⟨new, left, hadd, -⟩ := exists_add hrelation hrow rows ids
    exact ⟨_, left, hadd, remove_concat rows new⟩
  · exact ⟨insertAfter_of_no_row hno, remove_of_no_row hno, update_of_no_row hno⟩
  · exact ⟨length_remove hplace, fun other hother => getElem?_remove hplace hother⟩

/-- A row whose data states another relation is put between two rows and below them, and taken out
again; above the first one it cannot be put, and without that one the second row comes first. -/
theorem stating_row_undone :
    let host : Row := { id := "a", field := "host", operator := some .present }
    let user : Row :=
      { id := "b", field := "user", operator := some .absent, relation := some .or }
    let input : Input := .object [("id", .text "c"), ("field", .text "bytes"),
      ("relation", .text "AND")]
    let ids : IdSupply := ⟨"n", 0⟩
    (∃ edited left, insertAfter .and [host, user] 0 (.text " or ") input ids = .ok (edited, left) ∧
      remove edited 1 = [host, user]) ∧
    (∃ edited left, add .and [host, user] (.text " or ") input ids = .ok (edited, left) ∧
      remove edited 2 = [host, user]) ∧
    insertAfter .and [host, user] (-1) (.text " or ") input ids = .ok ([host, user], ids) ∧
    (remove [host, user] 0)[0]? = some { user with relation := none } := by
  intro host user input ids
  have hrelation : Relation.resolve (.text " or ") = .ok (some .or) := by decide +kernel
  have hrow : Reading.IsRow input := .inr ⟨ids, _, rfl⟩
  obtain ⟨hinsert, hadd, hnone, hremove⟩ := edits_undone .and [host, user] ids hrelation hrow
  exact ⟨hinsert 0 (by decide) (by decide), hadd, (hnone (-1) (by decide)).1 (.text " or ") input,
    (hremove 0 (by decide)).2 1 (by decide) (by decide)⟩

end Rows

end FilterQuery
