import FilterQuery.Filter.Preview
import FilterQuery.Proofs.StatedRelation
import FilterQuery.Rows.Edit

/-!
# Relations that are left out

A relation may be left out of an edit, of the description of a group, and of a row below the first
one.  The settings name a default that stands in for it, but not everywhere: edits of trees take
"and", and so does a group that has no relation at all.  Edits of rows, groups whose relation is
empty and rows without a relation take the default.

Main results:

- `Rows.compile_stated`, `Rows.preview_stated`: rows mean the same with the default written out.
- `left_out_relations`: what stands in for a relation wherever it can be left out.
- `default_is_ignored`: edits of trees and groups without a relation take "and" where the default
  is "or".
-/

namespace FilterQuery

/-! ## Edits -/

namespace Tree

variable {blank : Input}

/-- A condition is added by "and" if the relation is left out. -/
theorem add_of_isUnset (h : blank.isUnset = true) (tree : Tree) (parent : Option String)
    (condition : Input) (ids : IdSupply) :
    tree.add parent blank condition ids =
      tree.add parent (.text Relation.and.keyword) condition ids := by
  unfold add
  rw [Relation.resolve_of_isUnset h, Relation.resolve_keyword]
  rfl

/-- A node is moved by "and" if the relation is left out. -/
theorem move_of_isUnset (h : blank.isUnset = true) (tree : Tree) (node target : String)
    (ids : IdSupply) :
    tree.move node target blank ids =
      tree.move node target (.text Relation.and.keyword) ids := by
  unfold move
  rw [Relation.resolve_of_isUnset h, Relation.resolve_keyword]
  rfl

end Tree

namespace Rows

variable {blank : Input}

/-- The default relation stands in for one that is left out. -/
theorem relationOr_of_isUnset (h : blank.isUnset = true) (default : Relation) :
    relationOr default blank = relationOr default (.text default.keyword) := by
  rw [relationOr, relationOr, Relation.resolve_of_isUnset h, Relation.resolve_keyword]
  rfl

/-- A row is added by the default relation if the relation is left out. -/
theorem add_of_isUnset (h : blank.isUnset = true) (default : Relation) (rows : List Row)
    (row : Input) (ids : IdSupply) :
    add default rows blank row ids = add default rows (.text default.keyword) row ids := by
  rw [add, add, relationOr_of_isUnset h]

/-- A row is put below another one by the default relation if the relation is left out. -/
theorem insertAfter_of_isUnset (h : blank.isUnset = true) (default : Relation) (rows : List Row)
    (index : Int) (row : Input) (ids : IdSupply) :
    insertAfter default rows index blank row ids =
      insertAfter default rows index (.text default.keyword) row ids := by
  rw [insertAfter, insertAfter, relationOr_of_isUnset h]

end Rows

/-! ## Rows -/

/-- What is done to a result may be done by the next step. -/
theorem Compilation.bind_map_left {α β γ : Type} (f : α → β) (step : Compilation α)
    (next : β → Compilation γ) : (f <$> step) >>= next = step >>= fun a => next (f a) := by
  rcases step with ⟨_ | ⟨a, notices⟩⟩ <;>
    simp [Functor.map, bind, Except.bind, pure, Except.pure]

/-- A row that states the default relation if it states none. -/
def Row.stated (default : Relation) (row : Row) : Row :=
  row.withRelation (some (row.relation.getD default))

namespace Rows

/-- Rows of which every one below the first states a relation. -/
def stated (default : Relation) : List Row → List Row
  | [] => []
  | first :: below => first :: below.map (Row.stated default)

/-- Rows that stay the same conditions are kept with the same clauses and notices. -/
theorem compileEach_map (f : Row → Row) (h : ∀ row, (f row).toCondition = row.toCondition)
    (rows : List Row) :
    compileEach (rows.map f) = List.map (fun item => (f item.1, item.2)) <$> compileEach rows := by
  induction rows with
  | nil => rfl
  | cons row rest ih =>
      rw [List.map_cons, compileEach, compileEach, h, ih]
      generalize row.toCondition.compile = step
      generalize compileEach rest = below
      rcases step with ⟨_ | ⟨clause, before⟩⟩
      · rfl
      · rcases below with ⟨_ | ⟨others, after⟩⟩
        · rfl
        · cases clause <;> simp [Functor.map, bind, Except.bind, pure, Except.pure]

/-- The relations between rows are the same when the default is written out. -/
theorem relations_map_stated (default : Relation) (rows : List Row) :
    relations default (rows.map (Row.stated default)) = relations default rows := by
  simp [relations, ← List.map_tail, Row.stated, Row.withRelation]

/-- Rows have the same clause when every one of them states the default relation. -/
theorem compile_map_stated (default : Relation) (rows : List Row) :
    compile default (rows.map (Row.stated default)) = compile default rows := by
  rw [compile, compile, compileEach_map (Row.stated default) fun _ => rfl,
    Compilation.bind_map_left]
  refine congrArg (compileEach rows >>= ·) (funext fun kept => ?_)
  have hclauses : (kept.map fun item => (item.1.stated default, item.2)).map Prod.snd =
      kept.map Prod.snd := by
    rw [List.map_map]
    rfl
  have hrows : (kept.map fun item => (item.1.stated default, item.2)).map Prod.fst =
      (kept.map Prod.fst).map (Row.stated default) := by
    rw [List.map_map, List.map_map]
    rfl
  rw [hclauses, hrows, relations_map_stated]

/-- Writing out the relations below the first row makes no difference where all are written out. -/
theorem map_stated_stated (default : Relation) (rows : List Row) :
    (stated default rows).map (Row.stated default) = rows.map (Row.stated default) := by
  cases rows with
  | nil => rfl
  | cons first below => simp [stated, Row.stated, Row.withRelation]

/-- Rows have the same clause, and the same notices, with the default relation written out. -/
theorem compile_stated (default : Relation) (rows : List Row) :
    compile default (stated default rows) = compile default rows := by
  rw [← compile_map_stated, map_stated_stated, compile_map_stated]

/-- Rows are shown alike when every one of them states the default relation. -/
theorem preview_map_stated (style : Style) (default : Relation) (rows : List Row) :
    preview style default (rows.map (Row.stated default)) = preview style default rows := by
  have husable : usable (rows.map (Row.stated default)) =
      (usable rows).map (Row.stated default) := by
    rw [usable, usable, List.filter_map]
    rfl
  simp only [preview, husable, relations_map_stated, List.mapM_map]
  rfl

/-- Rows are shown alike with the default relation written out. -/
theorem preview_stated (style : Style) (default : Relation) (rows : List Row) :
    preview style default (stated default rows) = preview style default rows := by
  rw [← preview_map_stated, map_stated_stated, preview_map_stated]

end Rows

/-! ## All places -/

/-- What stands in for a relation that is left out: "and" in edits of trees, and the default in
edits of rows.  In the description of a group it is "and" or the default, and with these written out
the description is read as before, at any depth.  Rows mean the same, and are shown alike, with the
default written out. -/
theorem left_out_relations (default : Relation) :
    (∀ blank : Input, blank.isUnset = true →
      (∀ (tree : Tree) parent condition ids, tree.add parent blank condition ids =
        tree.add parent (.text Relation.and.keyword) condition ids) ∧
      (∀ (tree : Tree) node target ids, tree.move node target blank ids =
        tree.move node target (.text Relation.and.keyword) ids) ∧
      (∀ rows row ids, Rows.add default rows blank row ids =
        Rows.add default rows (.text default.keyword) row ids) ∧
      ∀ rows index row ids, Rows.insertAfter default rows index blank row ids =
        Rows.insertAfter default rows index (.text default.keyword) row ids) ∧
    (∀ input, (Input.stateRelations default input).statesRelations = true ∧
      Reading.node default (Input.stateRelations default input) = Reading.node default input) ∧
    ∀ rows, Rows.compile default (Rows.stated default rows) = Rows.compile default rows ∧
      ∀ style, Rows.preview style default (Rows.stated default rows) =
        Rows.preview style default rows := by
  refine ⟨fun blank hblank => ⟨?_, ?_, ?_, ?_⟩, fun input => ⟨?_, ?_⟩, fun rows => ⟨?_, ?_⟩⟩
  · exact Tree.add_of_isUnset hblank
  · exact Tree.move_of_isUnset hblank
  · exact Rows.add_of_isUnset hblank default
  · exact Rows.insertAfter_of_isUnset hblank default
  · exact Input.statesRelations_stateRelations default input
  · exact Reading.node_stateRelations default input
  · exact Rows.compile_stated default rows
  · exact fun style => Rows.preview_stated style default rows

/-- Whatever the default is, a condition is added and a node is moved by "and".  Where the default
is "or", a group without a relation is joined by "and" all the same. -/
theorem default_is_ignored :
    let a : Node := .leaf (.plain { id := "a" })
    let b : Node := .leaf (.plain { id := "b" })
    let ids : IdSupply := ⟨"n", 0⟩
    let joined : Tree := { id := "t", root := some (.group ids.mint.1 .and [a, b]) }
    Tree.add { id := "t", root := some a } (some "a") .null (.object [("id", .text "b")]) ids =
        .ok (some joined, ids.mint.2) ∧
      Tree.move { id := "t", root := some (.group "g" .or [a, b]) } "b" "a" .null ids =
        .ok (some joined, ids.mint.2) ∧
      (Reading.node .or (.object [("id", .text "g"), ("children", .list [])])).run ids =
        .ok (.group "g" .and [], ids) :=
  ⟨rfl, rfl, rfl⟩

end FilterQuery
