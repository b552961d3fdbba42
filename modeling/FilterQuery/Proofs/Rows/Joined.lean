import FilterQuery.Proofs.Rows.Update
import FilterQuery.Proofs.Run
import FilterQuery.Rows.Edit

/-!
# Joined rows

Rows are joined when the first one states no relation and every row below it states one.  Rows are
edited by one call after the other, and a call that fails leaves them as they are.  Adding,
inserting and removing rows keep them joined.  An update may name any relation for any row, so it
keeps them joined only if what it names fits the place of the row.

Main results:

- `isJoined_add`, `isJoined_insertAfter`, `isJoined_remove`: these edits keep rows joined.
- `isJoined_update_iff`: an update keeps rows joined exactly when it names nothing for the first
  row, and something for any other one.
- `isJoined_throughout_iff`: rows stay joined in a run of calls exactly when every update does so.
-/

namespace FilterQuery

/-- A row that is made new is joined by the relation that it is made with, whatever its data
states. -/
theorem Reading.relation_newRow {relation : Option Relation} {input : Input} {row : Row}
    {ids left : IdSupply} (h : (newRow relation input).run ids = .ok (row, left)) :
    row.relation = relation := by
  unfold newRow at h
  split at h
  · rcases run_map_eq_ok_iff.mp h with ⟨id, _, rfl⟩
    rfl
  · rcases run_pure_eq_ok_iff.mp h with ⟨rfl, _⟩
    rfl
  · exact absurd (run_within_eq_ok_iff.mp h) run_fail_ne_ok
  · next fields =>
      have hresolve := resolve_of_rowFields (Input.get?_set_self "relation" _ fields) h
      rw [Relation.resolve_ofValue_field] at hresolve
      exact (Except.ok.inj hresolve).symm
  · exact absurd h run_fail_ne_ok

namespace Rows

/-! ## Calls -/

/-- What may be asked of rows.  Relations, rows and updates come from outside. -/
inductive Edit where
  /-- Puts a row at the end. -/
  | add (relation row : Input)
  /-- Puts a row below the one at a place. -/
  | insertAfter (index : Int) (relation row : Input)
  /-- Takes out the row at a place. -/
  | remove (index : Int)
  /-- Updates the row at a place. -/
  | update (index : Int) (given : List (String × Input))

/-- Performs an edit. -/
def perform (default : Relation) (rows : List Row) (ids : IdSupply) :
    Edit → Except Error (List Row × IdSupply)
  | .add relation row => add default rows relation row ids
  | .insertAfter index relation row => insertAfter default rows index relation row ids
  | .remove index => .ok (remove rows index, ids)
  | .update index given => update rows index given ids

/-- An edit that is asked for, and the identifiers it may draw. -/
structure Call where
  edit : Edit
  ids : IdSupply

/-- The rows after a call; where the edit fails they are the same as before. -/
def afterCall (default : Relation) (rows : List Row) (call : Call) : List Row :=
  match perform default rows call.ids call.edit with
  | .ok (rows, _) => rows
  | .error _ => rows

/-- The rows after several calls that start with no row. -/
def afterCalls (default : Relation) (calls : List Call) : List Row :=
  calls.foldl (afterCall default) []

/-! ## Rows that are joined -/

/-- Whether the first row states no relation, and every row below it states one. -/
def IsJoined : List Row → Prop
  | [] => True
  | first :: below => first.relation = none ∧ ∀ row ∈ below, row.relation ≠ none

/-- Whether rows are joined can be checked by looking at them. -/
instance decidableIsJoined : (rows : List Row) → Decidable (IsJoined rows)
  | [] => .isTrue trivial
  | first :: below =>
      inferInstanceAs (Decidable (first.relation = none ∧ ∀ row ∈ below, row.relation ≠ none))

variable {default : Relation} {rows edited : List Row} {ids left : IdSupply}

/-- A place that is meant is one in the list. -/
theorem lt_length_of_place? {index : Int} {place : Nat} (h : place? rows index = some place) :
    place < rows.length := by
  unfold place? at h
  split at h
  · next hindex =>
      have hplace : index.toNat = place := Option.some.inj h
      omega
  · contradiction

/-- The first row of all is made without a relation, and the one that is asked for is not read. -/
theorem add_nil (default : Relation) (relation row : Input) (ids : IdSupply) :
    add default [] relation row ids =
      Reading.call (Reading.newRow none row) ids >>= fun result => .ok ([result.1], result.2) :=
  rfl

/-- Any other row is made with the relation that is asked for, or the default. -/
theorem add_cons (default : Relation) (first : Row) (below : List Row) (relation row : Input)
    (ids : IdSupply) :
    add default (first :: below) relation row ids =
      relationOr default relation >>= fun joined =>
        Reading.call (Reading.newRow (some joined) row) ids >>= fun result =>
          .ok ((first :: below) ++ [result.1], result.2) := by
  unfold add
  cases relationOr default relation <;> rfl

/-- Adding a row puts a new one at the end, which is made with a relation unless it is the first. -/
theorem add_cases {relation row : Input}
    (h : add default rows relation row ids = .ok (edited, left)) :
    ∃ joined new, (joined = none ↔ rows = []) ∧
      (Reading.newRow joined row).run ids = .ok (new, left) ∧ edited = rows ++ [new] := by
  cases rows with
  | nil =>
      rw [add_nil] at h
      rcases Traversal.bind_eq_ok_iff.mp h with ⟨⟨new, rest⟩, hnew, hresult⟩
      rcases Prod.mk.inj (Except.ok.inj hresult) with ⟨rfl, rfl⟩
      exact ⟨none, new, by simp, Reading.call_eq_ok_iff.mp hnew, rfl⟩
  | cons first below =>
      rw [add_cons] at h
      rcases Traversal.bind_eq_ok_iff.mp h with ⟨joined, _, h⟩
      rcases Traversal.bind_eq_ok_iff.mp h with ⟨⟨new, rest⟩, hnew, hresult⟩
      rcases Prod.mk.inj (Except.ok.inj hresult) with ⟨rfl, rfl⟩
      exact ⟨some joined, new, by simp, Reading.call_eq_ok_iff.mp hnew, rfl⟩

/-- A row that is added at the end states a relation, unless it is the first one. -/
theorem isJoined_add {relation row : Input} (hrows : IsJoined rows)
    (h : add default rows relation row ids = .ok (edited, left)) : IsJoined edited := by
  rcases add_cases h with ⟨joined, new, hjoined, hnew, rfl⟩
  have hrelation := Reading.relation_newRow hnew
  cases rows with
  | nil => exact ⟨hrelation.trans (hjoined.mpr rfl), List.forall_mem_nil _⟩
  | cons first below =>
      refine ⟨hrows.1, fun other hother => ?_⟩
      rcases List.mem_append.mp hother with hold | hlast
      · exact hrows.2 other hold
      · rw [List.mem_singleton.mp hlast, hrelation]
        exact fun hnone => List.cons_ne_nil first below (hjoined.mp hnone)

/-- Inserting a row puts a new one below that at a place, which is made with a relation; where there
is no such place the rows stay as they are. -/
theorem insertAfter_cases {index : Int} {relation row : Input}
    (h : insertAfter default rows index relation row ids = .ok (edited, left)) :
    edited = rows ∨ ∃ place joined new, place? rows index = some place ∧
      (Reading.newRow (some joined) row).run ids = .ok (new, left) ∧
        edited = rows.take (place + 1) ++ new :: rows.drop (place + 1) := by
  unfold insertAfter at h
  split at h
  · exact .inl (Prod.mk.inj (Except.ok.inj h)).1.symm
  · next place hplace =>
      rcases Traversal.bind_eq_ok_iff.mp h with ⟨joined, _, h⟩
      rcases Traversal.bind_eq_ok_iff.mp h with ⟨⟨new, rest⟩, hnew, hresult⟩
      rcases Prod.mk.inj (Except.ok.inj hresult) with ⟨rfl, rfl⟩
      exact .inr ⟨place, joined, new, hplace, Reading.call_eq_ok_iff.mp hnew, rfl⟩

/-- A row that is put below another one states a relation. -/
theorem isJoined_insertAfter {index : Int} {relation row : Input} (hrows : IsJoined rows)
    (h : insertAfter default rows index relation row ids = .ok (edited, left)) :
    IsJoined edited := by
  rcases insertAfter_cases h with rfl | ⟨place, joined, new, hplace, hnew, rfl⟩
  · exact hrows
  · have hrelation := Reading.relation_newRow hnew
    cases rows with
    | nil => exact absurd (lt_length_of_place? hplace) (Nat.not_lt_zero place)
    | cons first below =>
        refine ⟨hrows.1, fun other hother => ?_⟩
        rcases List.mem_append.mp hother with hbefore | hafter
        · exact hrows.2 other (List.mem_of_mem_take hbefore)
        · rcases List.mem_cons.mp hafter with rfl | hbelow
          · rw [hrelation]
            exact Option.some_ne_none joined
          · exact hrows.2 other (List.mem_of_mem_drop hbelow)

/-- The row that comes first after another one was taken out loses its relation. -/
theorem isJoined_remove (index : Int) (hrows : IsJoined rows) : IsJoined (remove rows index) := by
  unfold remove
  split
  · exact hrows
  · rcases rows with _ | ⟨first, _ | ⟨second, below⟩⟩
    · trivial
    · trivial
    · exact ⟨rfl, fun row hrow => hrows.2 row (List.mem_cons_of_mem second hrow)⟩
  · next place hne hplace =>
      rcases rows with _ | ⟨first, below⟩
      · trivial
      · cases place with
        | zero => exact absurd rfl hne
        | succ place =>
            exact ⟨hrows.1, fun row hrow => hrows.2 row (List.mem_of_mem_eraseIdx hrow)⟩

/-- A row that takes the place of another one leaves the rows joined exactly when it states no
relation in the first place, and states one in any other. -/
theorem isJoined_set_iff {place : Nat} (hrows : IsJoined rows) (hplace : place < rows.length)
    (row : Row) : IsJoined (rows.set place row) ↔ (row.relation = none ↔ place = 0) := by
  rcases rows with _ | ⟨first, below⟩
  · exact absurd hplace (Nat.not_lt_zero place)
  · cases place with
    | zero => simpa [IsJoined] using fun _ => hrows.2
    | succ place =>
        simp only [List.set_cons_succ, IsJoined, Nat.add_one_ne_zero, iff_false]
        constructor
        · intro h
          exact h.2 row (List.mem_set (Nat.lt_of_succ_lt_succ hplace) row)
        · intro hstates
          refine ⟨hrows.1, fun other hother => ?_⟩
          rcases List.mem_or_eq_of_mem_set hother with hold | rfl
          · exact hrows.2 other hold
          · exact hstates

/-- An update that goes through leaves joined rows joined exactly when it names no relation, or
names nothing for the first row and something for any other one. -/
theorem isJoined_update_iff {index : Int} {place : Nat} {given : List (String × Input)}
    (hrows : IsJoined rows) (hplace : place? rows index = some place)
    (h : update rows index given ids = .ok (edited, left)) :
    IsJoined edited ↔
      ∀ input ∈ Row.relationNamed? given, (input.isUnset = true ↔ place = 0) := by
  have hlt := lt_length_of_place? hplace
  have hrow : rows[place]? = some rows[place] := List.getElem?_eq_getElem hlt
  simp only [update, hplace, hrow] at h
  rcases Traversal.map_eq_ok_iff.mp h with ⟨⟨updated, rest⟩, hupdated, hresult⟩
  rcases Prod.mk.inj hresult with ⟨rfl, rfl⟩
  have hrelation := Reading.resolve_of_updatedRow (Reading.call_eq_ok_iff.mp hupdated)
  rw [isJoined_set_iff hrows hlt]
  cases hnamed : Row.relationNamed? given with
  | none =>
      -- The row keeps its relation, and the rows were joined before.
      rw [hnamed, Option.getD_none, Relation.resolve_ofValue_field] at hrelation
      rw [← Except.ok.inj hrelation, ← isJoined_set_iff hrows hlt, List.set_getElem_self]
      exact iff_of_true hrows fun input hinput => absurd hinput (Option.not_mem_none input)
  | some input =>
      rw [hnamed, Option.getD_some] at hrelation
      have hunset : updated.relation = none ↔ input.isUnset = true := by
        rw [← Relation.resolve_eq_ok_none_iff, hrelation, Except.ok.injEq]
      simp [hunset]

/-! ## Runs of calls -/

/-- Whether a call leaves the relations of rows in order.  Only an update that goes through may do
otherwise: where it names a relation, that has to be left out for the first row, and stated for any
other one. -/
def LeavesJoined (default : Relation) (rows : List Row) (call : Call) : Prop :=
  ∀ index given place result, call.edit = .update index given → place? rows index = some place →
    perform default rows call.ids call.edit = .ok result →
      ∀ input ∈ Row.relationNamed? given, (input.isUnset = true ↔ place = 0)

/-- Only updates can bring relations out of order. -/
theorem leavesJoined_of_ne_update {call : Call}
    (h : ∀ index given, call.edit ≠ .update index given) : LeavesJoined default rows call :=
  fun index given _ _ hedit => absurd hedit (h index given)

/-- Nor can an update of a row that is not there. -/
theorem leavesJoined_of_place?_eq_none {index : Int} {given : List (String × Input)}
    (h : place? rows index = none) (ids : IdSupply) :
    LeavesJoined default rows ⟨.update index given, ids⟩ := by
  intro other _ place _ hedit hplace
  rcases Edit.update.inj hedit with ⟨rfl, rfl⟩
  exact absurd (h.symm.trans hplace) (Option.some_ne_none place).symm

/-- A call leaves joined rows joined exactly when it leaves the relations in order. -/
theorem isJoined_afterCall_iff (call : Call) (hrows : IsJoined rows) :
    IsJoined (afterCall default rows call) ↔ LeavesJoined default rows call := by
  rcases call with ⟨edit, ids⟩
  unfold afterCall
  cases h : perform default rows ids edit with
  | error e =>
      refine iff_of_true hrows fun index given place result _ _ hresult => ?_
      have hboth := h.symm.trans hresult
      contradiction
  | ok outcome =>
      rcases outcome with ⟨edited, left⟩
      cases edit with
      | add relation row =>
          exact iff_of_true (isJoined_add hrows h)
            (leavesJoined_of_ne_update fun _ _ => Edit.noConfusion)
      | insertAfter index relation row =>
          exact iff_of_true (isJoined_insertAfter hrows h)
            (leavesJoined_of_ne_update fun _ _ => Edit.noConfusion)
      | remove index =>
          rcases Prod.mk.inj (Except.ok.inj h) with ⟨rfl, rfl⟩
          exact iff_of_true (isJoined_remove index hrows)
            (leavesJoined_of_ne_update fun _ _ => Edit.noConfusion)
      | update index given =>
          cases hplace : place? rows index with
          | none =>
              have hsame : update rows index given ids = .ok (rows, ids) := by
                simp only [update, hplace]
              rcases Prod.mk.inj (Except.ok.inj (hsame.symm.trans h)) with ⟨rfl, rfl⟩
              exact iff_of_true hrows (leavesJoined_of_place?_eq_none hplace ids)
          | some place =>
              rw [isJoined_update_iff hrows hplace h]
              constructor
              · intro hnamed other _ otherPlace _ hedit hother _
                rcases Edit.update.inj hedit with ⟨rfl, rfl⟩
                rcases Option.some.inj (hplace.symm.trans hother) with rfl
                exact hnamed
              · intro hleaves
                exact hleaves index given place _ rfl hplace h

/-- Rows that start as none at all are joined throughout a run of calls exactly when every call
leaves the relations in order. -/
theorem isJoined_throughout_iff (default : Relation) (calls : List Call) :
    (∀ prior, prior <+: calls → IsJoined (afterCalls default prior)) ↔
      ∀ prior call, prior ++ [call] <+: calls →
        LeavesJoined default (afterCalls default prior) call :=
  Run.holds_throughout_iff (fun _ call hrows => isJoined_afterCall_iff call hrows)
    (show IsJoined [] from trivial) calls

/-- An update makes the first row state a relation, or one below it state none. -/
theorem update_unjoins_rows :
    ¬ IsJoined (afterCalls .and
        [⟨.add .null .null, ⟨"r", 0⟩⟩, ⟨.update 0 [("relation", .text "OR")], ⟨"r", 1⟩⟩]) ∧
      ¬ IsJoined (afterCalls .and
        [⟨.add .null .null, ⟨"r", 0⟩⟩, ⟨.add .null .null, ⟨"r", 1⟩⟩,
          ⟨.update 1 [("relation", .null)], ⟨"r", 2⟩⟩]) := by
  decide +kernel

end Rows

end FilterQuery
