import FilterQuery.Proofs.Filled
import FilterQuery.Proofs.Formula.Attach
import FilterQuery.Proofs.Rows.Joined
import FilterQuery.Proofs.SameViews
import FilterQuery.Proofs.Shown
import FilterQuery.Proofs.Tree.Perform

/-!
# Half-filled conditions

A condition that cannot be used is no part of any formula, so a filter shows no trace of it.  It may
still change the shape of the filter: a tree may get a new group for it, and rows may get another
first row.

Main results:

- `Reading.run_newRow_unjoined`: what a new row states does not depend on how it is joined.
- `Rows.compared_middle`: a row that cannot be used leaves no trace, wherever it stands.
- `Filter.halfFilled_is_invisible`: adding a condition that cannot be used to a tree, and adding,
  inserting or removing a row that cannot be used, leave the views as they are.
-/

namespace FilterQuery

/-- Whether a condition can be used does not depend on its identifier. -/
theorem Condition.isUsable_of_id (c : Condition) (id : String) :
    Condition.isUsable { c with id } = c.isUsable := by
  rw [isUsable, c.comparison?_withId id, Option.isSome_map, isUsable]

/-! ## New rows -/

namespace Reading

/-- The relation of a row is no part of the condition that it states. -/
theorem condition_set_relation (input : Input) (fields : List (String × Input)) :
    condition (Input.set "relation" input fields) = condition fields := by
  have hget (spellings : List String) (h : "relation" ∉ spellings) : ∀ name ∈ spellings,
      Input.get? name (Input.set "relation" input fields) = Input.get? name fields := by
    intro name hname
    refine Input.get?_set_of_ne ?_ input fields
    rintro rfl
    exact h hname
  unfold condition kind identifier bound
  rw [field_congr (hget ["kind"] (by decide)), field_congr (hget ["id"] (by decide)),
    field_congr (hget ["field"] (by decide)), field_congr (hget ["operator"] (by decide)),
    field_congr (hget ["value"] (by decide)),
    field_congr (hget ["minOperator", "min_operator"] (by decide)),
    field_congr (hget ["minValue", "min_value"] (by decide)),
    field_congr (hget ["maxOperator", "max_operator"] (by decide)),
    field_congr (hget ["maxValue", "max_value"] (by decide))]

/-- A new row that is joined by some relation is, but for the relation, the one that is made without
one. -/
theorem run_newRow_unjoined {relation : Option Relation} {input : Input} {row : Row}
    {ids left : IdSupply} (h : (newRow relation input).run ids = .ok (row, left)) :
    (newRow none input).run ids = .ok (row.withRelation none, left) := by
  unfold newRow at h ⊢
  split at h
  · rcases run_map_eq_ok_iff.mp h with ⟨id, hid, rfl⟩
    exact run_map_eq_ok_iff.mpr ⟨id, hid, rfl⟩
  · rcases run_pure_eq_ok_iff.mp h with ⟨rfl, rfl⟩
    rfl
  · exact absurd (run_within_eq_ok_iff.mp h) run_fail_ne_ok
  · next fields =>
      rcases run_seq_eq_ok_iff.mp h with ⟨_, middle, given, hcondition, hgiven, rfl⟩
      rcases run_map_eq_ok_iff.mp hcondition with ⟨c, hc, rfl⟩
      rcases (IgnoresSupply.field (.pure _) ignoresSupply_relation).drawsNothing _ _ _ hgiven
        with rfl
      rw [condition_set_relation] at hc
      refine run_seq_eq_ok_iff.mpr ⟨_, left, none, run_map_eq_ok_iff.mpr ⟨c, ?_, rfl⟩, ?_, rfl⟩
      · rwa [condition_set_relation]
      · exact run_field_of_get? (Input.get?_set_self "relation" _ fields) rfl
  · exact absurd h run_fail_ne_ok

end Reading

/-! ## Rows without a trace -/

namespace Rows

/-- A row that cannot be used leaves no trace, wherever it stands. -/
theorem compared_middle {row : Row} (h : row.isUsable = false) (before after : List Row) :
    compared (before ++ row :: after) = compared (before ++ after) := by
  have hnone : row.comparison? = none := by simpa [Condition.isUsable] using h
  have hmiddle : compared (row :: after) = compared after := compared_cons_of_none hnone after
  unfold compared at hmiddle ⊢
  rw [List.filterMap_append, List.filterMap_append, hmiddle]

/-- Taking out a row that cannot be used leaves the rows that can be used. -/
theorem compared_eraseIdx {rows : List Row} {place : Nat} {row : Row}
    (hrow : rows[place]? = some row) (h : row.isUsable = false) :
    compared (rows.eraseIdx place) = compared rows := by
  obtain ⟨hplace, rfl⟩ := List.getElem?_eq_some_iff.mp hrow
  calc compared (rows.eraseIdx place)
      = compared (rows.take place ++ rows.drop (place + 1)) := by
        rw [List.eraseIdx_eq_take_drop_succ]
    _ = compared (rows.take place ++ rows[place] :: rows.drop (place + 1)) :=
        (compared_middle h _ _).symm
    _ = compared rows := by rw [← List.drop_eq_getElem_cons hplace, List.take_append_drop]

/-- Rows have the same formula after a removal, whether the new first row loses its relation or
not. -/
theorem formula?_remove (default : Relation) {rows : List Row} {place : Nat}
    (h : place < rows.length) :
    formula? default (compared (remove rows place)) =
      formula? default (compared (rows.eraseIdx place)) := by
  have hplace : place? rows place = some place := if_pos (by omega)
  unfold remove
  rw [hplace]
  cases place with
  | zero =>
      rw [List.eraseIdx_zero]
      exact formula?_withBase default rows.tail
  | succ place => rfl

end Rows

/-! ## Filters without a trace -/

namespace Filter

/-- A condition that cannot be used is added to a tree without a trace. -/
theorem sameViews_add_condition {tree : Tree} {parent : Option String} {relation condition : Input}
    {ids read left : IdSupply} {c : Condition} {result : Option Tree}
    (hread : (Reading.treeCondition condition).run ids = .ok (c, read))
    (hunusable : c.isUsable = false)
    (h : tree.add parent relation condition ids = .ok (result, left)) :
    SameViews (.tree (result.getD tree).root) (.tree tree.root) := by
  obtain ⟨other, after, hother, hcases⟩ := Tree.add_cases h
  rcases Prod.mk.inj (Except.ok.inj (hread.symm.trans hother)) with ⟨rfl, rfl⟩
  have hleaf (id : String) : (Node.leaf (.plain { c with id })).formula? = none := by
    rw [Node.formula?_eq_none_iff, Node.conditions_leaf, List.forall_mem_singleton]
    exact (c.isUsable_of_id id).trans hunusable
  refine sameViews_tree ?_
  rcases hcases with ⟨hroot, rfl, _⟩ | ⟨rfl, _⟩ |
    ⟨root, target, given, new, hroot, _, _, hattach, rfl⟩
  · rw [hroot]
    exact hleaf c.id
  · rfl
  · have hnew : new.formula? = root.formula? :=
      (congrArg (fun attached => attached.1.formula?) hattach).symm.trans
        (Node.formula?_attach_of_eq_none (hleaf _) root _)
    rw [hroot]
    exact hnew

/-- A row that cannot be used is put among others without a trace. -/
theorem sameViews_middle {row : Row} (h : row.isUsable = false) (before after : List Row) :
    SameViews (.rows (before ++ row :: after)) (.rows (before ++ after)) :=
  sameViews_rows fun _ => by rw [Rows.compared_middle h]

/-- A row that cannot be used is added without a trace. -/
theorem sameViews_add_row {default : Relation} {rows edited : List Row} {relation input : Input}
    {ids read left : IdSupply} {row : Row}
    (hread : (Reading.newRow none input).run ids = .ok (row, read))
    (hunusable : row.isUsable = false)
    (h : Rows.add default rows relation input ids = .ok (edited, left)) :
    SameViews (.rows edited) (.rows rows) := by
  obtain ⟨joined, new, _, hnew, rfl⟩ := Rows.add_cases h
  rcases Prod.mk.inj (Except.ok.inj (hread.symm.trans (Reading.run_newRow_unjoined hnew)))
    with ⟨rfl, rfl⟩
  have hrow : new.isUsable = false := hunusable
  have hlast := sameViews_middle hrow rows []
  rwa [List.append_nil] at hlast

/-- A row that cannot be used is inserted without a trace. -/
theorem sameViews_insertAfter {default : Relation} {rows edited : List Row} {index : Int}
    {relation input : Input} {ids read left : IdSupply} {row : Row}
    (hread : (Reading.newRow none input).run ids = .ok (row, read))
    (hunusable : row.isUsable = false)
    (h : Rows.insertAfter default rows index relation input ids = .ok (edited, left)) :
    SameViews (.rows edited) (.rows rows) := by
  obtain rfl | ⟨place, joined, new, _, hnew, rfl⟩ := Rows.insertAfter_cases h
  · exact sameViews_rows fun _ => rfl
  · rcases Prod.mk.inj (Except.ok.inj (hread.symm.trans (Reading.run_newRow_unjoined hnew)))
      with ⟨rfl, rfl⟩
    have hrow : new.isUsable = false := hunusable
    have hmiddle := sameViews_middle hrow (rows.take (place + 1)) (rows.drop (place + 1))
    rwa [List.take_append_drop] at hmiddle

/-- A row that cannot be used is taken out without a trace. -/
theorem sameViews_remove_row {rows : List Row} {place : Nat} {row : Row}
    (hrow : rows[place]? = some row) (hunusable : row.isUsable = false) :
    SameViews (.rows (Rows.remove rows place)) (.rows rows) := by
  refine sameViews_rows fun default => ?_
  rw [Rows.formula?_remove default (List.getElem?_eq_some_iff.mp hrow).1,
    Rows.compared_eraseIdx hrow hunusable]

/-- Half-filled conditions are invisible.  A tree to which a condition is added that cannot be used,
anywhere and by any relation, has the views that it had before, and so have rows to which a row is
added that cannot be used, wherever it is put, and rows from which such a row is taken out. -/
theorem halfFilled_is_invisible :
    (∀ (tree : Tree) (parent : Option String) (relation condition : Input)
        (ids read left : IdSupply) (c : Condition) (result : Option Tree),
      (Reading.treeCondition condition).run ids = .ok (c, read) → c.isUsable = false →
        tree.add parent relation condition ids = .ok (result, left) →
          SameViews (.tree (result.getD tree).root) (.tree tree.root)) ∧
    (∀ (default : Relation) (rows edited : List Row) (relation input : Input)
        (ids read left : IdSupply) (row : Row),
      (Reading.newRow none input).run ids = .ok (row, read) → row.isUsable = false →
        (Rows.add default rows relation input ids = .ok (edited, left) →
          SameViews (.rows edited) (.rows rows)) ∧
        ∀ index, Rows.insertAfter default rows index relation input ids = .ok (edited, left) →
          SameViews (.rows edited) (.rows rows)) ∧
    ∀ (rows : List Row) (place : Nat) (row : Row), rows[place]? = some row →
      row.isUsable = false → SameViews (.rows (Rows.remove rows place)) (.rows rows) := by
  refine ⟨?_, ?_, ?_⟩
  · intro tree parent relation condition ids read left c result hread hunusable h
    exact sameViews_add_condition hread hunusable h
  · intro default rows edited relation input ids read left row hread hunusable
    exact ⟨sameViews_add_row hread hunusable, fun index => sameViews_insertAfter hread hunusable⟩
  · intro rows place row hrow hunusable
    exact sameViews_remove_row hrow hunusable

/-- A condition without a value is added to a group of the other relation, which is the only child
of its own group.  A row without a value is put at the end, below the first row, and is taken out
from the first place. -/
theorem begun_condition_is_invisible :
    let host : Condition := { id := "a", field := "host", operator := some .present }
    let user : Condition := { id := "b", field := "user", operator := some .absent }
    let begun : Condition := { id := "c", field := "bytes", operator := some .equal }
    let input : Input := .object [("id", .text "c"), ("field", .text "bytes"),
      ("operator", .text Operator.equal.name)]
    let ids : IdSupply := ⟨"n", 0⟩
    let either : Node := .group "h" .or [.leaf (.plain host), .leaf (.plain user)]
    let tree : Tree := { id := "t", root := some (.group "g" .and [either]) }
    let grown : Node := .group "g" .and [.group ids.mint.1 .and [either, .leaf (.plain begun)]]
    let first := [host.toRow none, user.toRow (some .or)]
    (tree.add (some "h") (.text "AND") input ids =
        .ok (some { tree with root := some grown }, ids.mint.2) ∧
      SameViews (.tree (some grown)) (.tree tree.root)) ∧
    (Rows.add .and first (.text "OR") input ids =
        .ok (first ++ [begun.toRow (some .or)], ids) ∧
      SameViews (.rows (first ++ [begun.toRow (some .or)])) (.rows first)) ∧
    (Rows.insertAfter .and first 0 .null input ids =
        .ok ([host.toRow none, begun.toRow (some .and), user.toRow (some .or)], ids) ∧
      SameViews (.rows [host.toRow none, begun.toRow (some .and), user.toRow (some .or)])
        (.rows first)) ∧
    (Rows.remove [begun.toRow none, user.toRow (some .or)] 0 = [user.toRow none] ∧
      SameViews (.rows [user.toRow none]) (.rows [begun.toRow none, user.toRow (some .or)])) := by
  intro host user begun input ids either tree grown first
  have hnone : begun.isUsable = false := rfl
  obtain ⟨hadd, hput, hremove⟩ := halfFilled_is_invisible
  refine ⟨⟨rfl, ?_⟩, ⟨rfl, ?_⟩, ⟨rfl, ?_⟩, rfl, ?_⟩
  · exact hadd tree (some "h") (.text "AND") input ids ids ids.mint.2 begun _ rfl hnone rfl
  · exact (hput .and first _ (.text "OR") input ids ids ids (begun.toRow none) rfl hnone).1 rfl
  · exact (hput .and first _ .null input ids ids ids (begun.toRow none) rfl hnone).2 0 rfl
  · exact hremove [begun.toRow none, user.toRow (some .or)] 0 (begun.toRow none) rfl hnone

end Filter

end FilterQuery
