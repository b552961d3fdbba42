import FilterQuery.Proofs.Reading
import Mathlib.Data.List.Induction
import Mathlib.Data.List.Nodup

/-!
# Relations of updated rows

An update of a row may name the relation of the row under either of its spellings; the last one
counts.  A row whose relation is not named keeps the one that it has.

Main results:

- `Relation.resolve_eq_ok_none_iff`: only what was left out is resolved to no relation.
- `Reading.resolve_of_updatedRow`: an updated row has the relation that its update names, or else
  the one that it had.
-/

namespace FilterQuery

/-! ## Relations that were left out -/

/-- Only what was left out is resolved to no relation. -/
theorem Relation.resolve_eq_ok_none_iff {input : Input} :
    resolve input = .ok none ↔ input.isUnset = true := by
  rw [resolve]
  cases input.isUnset with
  | true => simp
  | false =>
      cases input.display with
      | error limit => simp
      | ok text =>
          dsimp only
          generalize ofKeyword? (Text.upper (Text.trim text)) = stated
          cases stated <;> simp

/-- A relation is resolved from what stands for it in the fields of a row. -/
theorem Relation.resolve_ofValue_field (relation : Option Relation) :
    resolve (.ofValue (Relation.field relation)) = .ok relation := by
  cases relation with
  | none => rfl
  | some relation => exact resolve_keyword relation

/-! ## Fields that are set -/

namespace Input

/-- A field that was set is found with its new value. -/
@[simp]
theorem get?_set_self (name : String) (input : Input) (fields : List (String × Input)) :
    get? name (set name input fields) = some input := by
  induction fields with
  | nil => simp [set, get?]
  | cons field rest ih =>
      rcases field with ⟨key, old⟩
      by_cases hkey : key = name <;> simp [set, get?, hkey, ih]

/-- A field is missing exactly when its name is. -/
theorem get?_eq_none_iff {name : String} {fields : List (String × Input)} :
    get? name fields = none ↔ name ∉ fields.map Prod.fst := by
  induction fields with
  | nil => simp [get?]
  | cons field rest ih =>
      rcases field with ⟨key, input⟩
      by_cases hkey : key = name
      · simp [get?, hkey]
      · simp [get?, hkey, Ne.symm hkey, ih]

/-- Setting a field keeps the names, or puts a new one behind them. -/
theorem map_fst_set (name : String) (input : Input) (fields : List (String × Input)) :
    (set name input fields).map Prod.fst =
      if name ∈ fields.map Prod.fst then fields.map Prod.fst
      else fields.map Prod.fst ++ [name] := by
  induction fields with
  | nil => simp [set]
  | cons field rest ih =>
      rcases field with ⟨key, old⟩
      by_cases hkey : key = name
      · simp [set, hkey]
      · rw [set, if_neg hkey, List.map_cons, ih]
        by_cases hmem : name ∈ rest.map Prod.fst
        · simp [hmem]
        · simp [hmem, Ne.symm hkey]

/-- No name occurs twice after a field was set, if none did before. -/
theorem nodup_map_fst_set {name : String} {input : Input} {fields : List (String × Input)}
    (h : (fields.map Prod.fst).Nodup) : ((set name input fields).map Prod.fst).Nodup := by
  rw [map_fst_set]
  split
  · exact h
  · next hnew =>
      rw [← List.concat_eq_append]
      exact List.Nodup.concat hnew h

/-- Of several fields that are set, each is found with its new value. -/
theorem get?_foldl_set_of_get? {name : String} {input : Input} {updates : List (String × Input)}
    (hnodup : (updates.map Prod.fst).Nodup) (h : get? name updates = some input)
    (fields : List (String × Input)) :
    get? name (updates.foldl (fun kept (key, input) => set key input kept) fields) =
      some input := by
  induction updates generalizing fields with
  | nil => contradiction
  | cons update rest ih =>
      rcases update with ⟨key, new⟩
      rw [List.map_cons, List.nodup_cons] at hnodup
      rw [List.foldl_cons]
      by_cases hkey : key = name
      · subst hkey
        have hnew : new = input := by simpa [get?] using h
        rw [get?_foldl_set (get?_eq_none_iff.mpr hnodup.1), get?_set_self, hnew]
      · exact ih hnodup.2 (by simpa [get?, hkey] using h) _

end Input

/-! ## Updates of rows -/

namespace UpdateTarget

/-- An update gives every field at most one new value. -/
theorem nodup_updates (target : UpdateTarget) (given : List (String × Input)) :
    ((target.updates given).map Prod.fst).Nodup := by
  induction given using List.reverseRecOn with
  | nil => exact .nil
  | append_singleton given update ih =>
      rw [updates, List.foldl_concat, take]
      split
      · exact Input.nodup_map_fst_set ih
      · exact ih

/-- An updated field has its new value, and any other one keeps what it had. -/
theorem get?_apply (target : UpdateTarget) (name : String) (fields : List (String × Value))
    (given : List (String × Input)) :
    Input.get? name (target.apply fields given) =
      (Input.get? name (target.updates given)).or
        ((Value.get? name fields).map Input.ofValue) := by
  rw [apply]
  cases h : Input.get? name (target.updates given) with
  | none => rw [Input.get?_foldl_set h, Input.get?_ofFields, Option.none_or]
  | some input =>
      rw [Input.get?_foldl_set_of_get? (target.nodup_updates given) h, Option.some_or]

end UpdateTarget

/-- The relation that an update of a row names: the last one under either spelling. -/
def Row.relationNamed? (given : List (String × Input)) : Option Input :=
  (given.filter fun update => update.1 = "relation" ∨ update.1 = "logic").getLast?.map Prod.snd

/-- The relation of a row goes by two spellings. -/
theorem UpdateTarget.lookup_row_relation {key : String} :
    row.names.lookup key = some "relation" ↔ key = "relation" ∨ key = "logic" := by
  constructor
  · intro hlookup
    rcases List.lookup_eq_some_iff.mp hlookup with ⟨before, after, hnames, _⟩
    have hmem : (key, "relation") ∈ row.names := by simp [hnames]
    simpa [names, conditionNames] using hmem
  · rintro (rfl | rfl) <;> rfl

/-- What an update gives to the relation of a row is what it names last. -/
theorem UpdateTarget.get?_relation_updates (given : List (String × Input)) :
    Input.get? "relation" (row.updates given) = Row.relationNamed? given := by
  induction given using List.reverseRecOn with
  | nil => rfl
  | append_singleton given update ih =>
      rw [updates, List.foldl_concat, take, Row.relationNamed?, List.filter_append]
      by_cases hspelling : update.1 = "relation" ∨ update.1 = "logic"
      · rw [lookup_row_relation.mpr hspelling]
        simp [hspelling]
      · have hother : row.names.lookup update.1 ≠ some "relation" := fun h =>
          hspelling (lookup_row_relation.mp h)
        rw [List.filter_singleton, decide_eq_false hspelling, cond_false, List.append_nil]
        split
        · next name hname =>
            have hne : name ≠ "relation" := fun h => hother (h ▸ hname)
            rw [Input.get?_set_of_ne hne]
            exact ih
        · exact ih

namespace Reading

variable {ids left : IdSupply}

/-- A row has the relation that the field `relation` of its data stands for. -/
theorem resolve_of_rowFields {fields : List (String × Input)} {input : Input} {row : Row}
    (hget : Input.get? "relation" fields = some input)
    (h : (rowFields fields).run ids = .ok (row, left)) :
    Relation.resolve input = .ok row.relation := by
  rcases run_seq_eq_ok_iff.mp h with ⟨_, middle, given, hcondition, hrelation, rfl⟩
  rcases run_map_eq_ok_iff.mp hcondition with ⟨c, _, rfl⟩
  have hread : (relation input).run middle = .ok (given, left) := by
    simpa [field, Input.find?, hget] using hrelation
  unfold relation at hread
  split at hread
  · next stated hstated =>
      rcases run_pure_eq_ok_iff.mp hread with ⟨rfl, _⟩
      exact hstated
  · exact absurd hread run_fail_ne_ok

/-- An updated row has the relation that its update names, or else the one that it had. -/
theorem resolve_of_updatedRow {row updated : Row} {given : List (String × Input)}
    (h : (updatedRow row given).run ids = .ok (updated, left)) :
    Relation.resolve ((Row.relationNamed? given).getD (.ofValue (Relation.field row.relation))) =
      .ok updated.relation := by
  refine resolve_of_rowFields ?_ h
  have hown : Value.get? "relation" row.fields = some (Relation.field row.relation) := rfl
  rw [UpdateTarget.get?_apply, UpdateTarget.get?_relation_updates, hown]
  cases Row.relationNamed? given <;> rfl

end Reading

end FilterQuery
