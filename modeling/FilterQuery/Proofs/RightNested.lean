import FilterQuery.Proofs.Formula.Preview
import FilterQuery.Proofs.Formula.Query
import FilterQuery.Proofs.Formula.Rows

/-!
# Rows read from the right

Rows stand for a tree: the first usable row and the tree of the rows below it form a group, of the
relation in front of the second row.  The query and the previews of rows are made without that
tree, yet they are the same.

Main results:

- `joinsFromRight_clauses`, `joinsFromRight_texts`: clauses and texts are joined as formulas are.
- `formula?_rightNested?`: the formula of rows is that of the tree they stand for.
- `rows_read_as_rightNested`: the query and the previews of rows are those of that tree.
-/

namespace FilterQuery

open Number

/-! ## Clauses and texts -/

/-- The clause of a comparison is not taken for one that joins others. -/
theorem Comparison.parts?_of_clause {comparison : Comparison} {clause : Clause}
    (h : comparison.clause = .ok clause) (relation : Relation) : clause.parts? relation = none := by
  rw [clause_eq_map_primitive] at h
  rcases Traversal.map_eq_ok_iff.mp h with ⟨p, _, rfl⟩
  cases comparison.operator.negated <;> rfl

namespace Rows

/-- Clauses are joined from the right as formulas are, if that of a last row is not taken for one
that joins others. -/
theorem joinsFromRight_clauses :
    JoinsFromRight (fun clause => ∀ relation, clause.parts? relation = none) Formula.clauseOf
      .junction Clause.prepend where
  side_by_side relation items := by simp [Function.comp_def]
  last relation first last hlast := by simp [Clause.prepend, hlast]
  extended relation first next parts := by simp [Clause.prepend, Clause.parts?]
  nested relation inner first parts hne := by simp

/-- Texts are joined from the right as formulas are. -/
theorem joinsFromRight_texts (style : Style) :
    JoinsFromRight (fun _ => True) style.write
      (fun relation => String.intercalate (style.joiner relation))
      (fun relation nested text below =>
        text ++ style.joiner relation ++ if nested then style.group below else below) where
  side_by_side relation items := by simp [Style.write_junction, Function.comp_def]
  last relation first last _ := by simp [Style.write_junction]
  extended relation first next parts := by simp [Style.write_junction]
  nested relation inner first parts hne := by simp [Style.write_junction]

/-! ## What rows are compared with -/

/-- The usable rows, each with the comparison that it makes. -/
def compared (rows : List Row) : List (Row × Comparison) :=
  rows.filterMap fun row => row.comparison?.map (row, ·)

/-- A row that cannot be used is left out. -/
theorem compared_cons_of_none {row : Row} (h : row.comparison? = none) (rest : List Row) :
    compared (row :: rest) = compared rest := by
  simp [compared, h]

/-- A row that can be used is kept with its comparison. -/
theorem compared_cons_of_some {row : Row} {comparison : Comparison}
    (h : row.comparison? = some comparison) (rest : List Row) :
    compared (row :: rest) = (row, comparison) :: compared rest := by
  simp [compared, h]

/-- A row stands with its own comparison. -/
theorem comparison?_of_mem_compared {rows : List Row} {item : Row × Comparison}
    (h : item ∈ compared rows) : item.1.comparison? = some item.2 := by
  rcases List.mem_filterMap.mp h with ⟨row, _, hrow⟩
  rcases Option.map_eq_some_iff.mp hrow with ⟨comparison, hcomparison, rfl⟩
  exact hcomparison

/-- The rows that have a comparison are the usable ones. -/
theorem map_fst_compared (rows : List Row) : (compared rows).map Prod.fst = usable rows := by
  induction rows with
  | nil => rfl
  | cons row rest ih =>
      rw [usable] at ih ⊢
      cases h : row.comparison? with
      | none => simp [compared_cons_of_none h, Condition.isUsable, h, ih]
      | some comparison => simp [compared_cons_of_some h, Condition.isUsable, h, ih]

/-- The clauses of rows are those of their comparisons, one after the other. -/
theorem value_compileEach (rows : List Row) :
    (compileEach rows).value =
      (compared rows).mapM fun item => (item.1, ·) <$> item.2.clause := by
  induction rows with
  | nil => rfl
  | cons row rest ih =>
      rw [compileEach, Compilation.value_bind, Condition.value_compile, Condition.clause?]
      cases h : row.comparison? with
      | none =>
          rw [compared_cons_of_none h, ← ih]
          simp only [Compilation.value_bind, Compilation.value_pure]
          cases (compileEach rest).value <;> rfl
      | some comparison =>
          rw [compared_cons_of_some h, List.mapM_cons, ← ih]
          simp only [Compilation.value_bind, Compilation.value_pure]
          cases comparison.clause with
          | error e => rfl
          | ok clause => cases (compileEach rest).value <;> rfl

/-- The clauses of rows are not taken for ones that join others. -/
theorem parts?_of_compileEach {rows : List Row} {kept : List (Row × Clause)}
    (h : (compileEach rows).value = .ok kept) :
    ∀ item ∈ kept, ∀ relation, item.2.parts? relation = none := by
  rw [value_compileEach] at h
  intro item hitem relation
  rcases Traversal.exists_mem_of_mapM_eq_ok h hitem with ⟨source, _, hsource⟩
  rcases Traversal.map_eq_ok_iff.mp hsource with ⟨clause, hclause, rfl⟩
  exact Comparison.parts?_of_clause hclause relation

/-- The clause of rows is that of their formula. -/
theorem value_compile (default : Relation) (rows : List Row) :
    (compile default rows).value =
      Option.map Formula.clauseOf <$>
        (formula? default (compared rows)).mapM (Formula.traverse Comparison.clause) := by
  rw [compile, Compilation.value_bind, formula?_traverse, ← value_compileEach]
  cases hkept : (compileEach rows).value with
  | error e => rfl
  | ok kept =>
      have hjoin := joinAll_eq_read_formula? joinsFromRight_clauses default
        (parts?_of_compileEach hkept)
      simp only [Formula.clauseOf_atom] at hjoin
      exact congrArg Except.ok hjoin

/-- The texts of rows are those of their comparisons, one after the other. -/
theorem texts_eq (style : Style) (rows : List Row) :
    (usable rows).mapM (fun row => style.condition row.toCondition) =
      List.map Prod.snd <$> (compared rows).mapM fun item =>
        (item.1, ·) <$> style.condition item.2.condition := by
  rw [← map_fst_compared, List.mapM_map, ← Traversal.mapM_map_result]
  refine Traversal.mapM_congr fun item hitem => ?_
  rcases Condition.comparison?_eq_some (comparison?_of_mem_compared hitem) with ⟨hcondition, _⟩
  rw [hcondition]
  simp

/-- The preview of rows is that of their formula. -/
theorem preview_eq (style : Style) (default : Relation) (rows : List Row) :
    preview style default rows =
      (fun written => (written.map style.write).getD "") <$>
        (formula? default (compared rows)).mapM
          (Formula.traverse fun c => style.condition c.condition) := by
  rw [preview, texts_eq, formula?_traverse]
  cases hkept : (compared rows).mapM fun item =>
      (item.1, ·) <$> style.condition item.2.condition with
  | error e => rfl
  | ok kept =>
      have hrows := Traversal.map_fst_of_mapM_eq_ok hkept
      rw [map_fst_compared] at hrows
      have hjoin := joinAll_eq_read_formula? (joinsFromRight_texts style) default
        (fun item (_ : item ∈ kept) => trivial)
      simp only [Style.write_atom, hrows] at hjoin
      exact congrArg (fun joined => Except.ok (joined.getD "")) hjoin

/-! ## The tree that rows stand for -/

/-- The tree of a row and the rows below it.  The groups are named after the rows in them. -/
def rightNested (default : Relation) (name : List Row → String) : Row → List Row → Node
  | row, [] => .leaf (.row row)
  | row, next :: below =>
      .group (name (row :: next :: below)) (next.relation.getD default)
        [.leaf (.row row), rightNested default name next below]

/-- The tree that rows stand for, if there are any. -/
def rightNested? (default : Relation) (name : List Row → String) : List Row → Option Node
  | [] => none
  | row :: below => some (rightNested default name row below)

/-- A row in a tree is an atom there if it can be used. -/
theorem formula?_row {row : Row} {comparison : Comparison}
    (h : row.comparison? = some comparison) :
    (Node.leaf (.row row)).formula? = some (.atom comparison) := by
  rw [Node.formula?_leaf, Leaf.condition, h, Option.map_some]

/-- The formula of the tree of usable rows joins their comparisons from the right. -/
theorem formula?_rightNested (default : Relation) (name : List Row → String)
    {item : Row × Comparison} {below : List (Row × Comparison)}
    (h : ∀ row ∈ item :: below, row.1.comparison? = some row.2) :
    (rightNested default name item.1 (below.map Prod.fst)).formula? =
      some (.chain item.2 (below.map fun row => (row.1.relation.getD default, row.2))) := by
  induction below generalizing item with
  | nil => exact formula?_row (h item (by simp))
  | cons next rest ih =>
      have hrest : ∀ row ∈ next :: rest, row.1.comparison? = some row.2 := fun row hrow =>
        h row (List.mem_cons_of_mem _ hrow)
      rw [List.map_cons, rightNested, Node.formula?_group,
        List.filterMap_cons_some (formula?_row (h item (by simp))),
        List.filterMap_cons_some (ih hrest), List.filterMap_nil, Formula.join_cons_cons,
        List.map_cons, Formula.chain_cons]
      simp

/-- The formula of rows is that of the tree they stand for. -/
theorem formula?_rightNested? (default : Relation) (name : List Row → String) (rows : List Row) :
    (rightNested? default name (usable rows)).bind Node.formula? =
      formula? default (compared rows) := by
  rw [← map_fst_compared]
  cases hkept : compared rows with
  | nil => rfl
  | cons item below =>
      refine formula?_rightNested default name fun row hrow => ?_
      rw [← hkept] at hrow
      exact comparison?_of_mem_compared hrow

end Rows

/-! ## Trees that may be empty -/

namespace Filter

/-- The clause of a tree, empty or not, is that of its formula. -/
theorem clause?_tree (default : Relation) (root : Option Node) :
    (tree root).clause? default =
      Option.map Formula.clauseOf <$>
        (root.bind Node.formula?).mapM (Formula.traverse Comparison.clause) := by
  cases root with
  | none => rfl
  | some node => exact node.value_compile

/-- The preview of a tree, empty or not, is that of its formula. -/
theorem preview_tree (style : Style) (default : Relation) (root : Option Node) :
    (tree root).preview style default none =
      (fun written => (written.map style.write).getD "") <$>
        (root.bind Node.formula?).mapM (Formula.traverse fun c => style.condition c.condition) := by
  cases root with
  | none => rfl
  | some node => exact node.preview_eq style none

/-- The query and the previews of rows are those of the right-nested tree of the usable rows, in
which a row is joined to what stands below it by the relation of the next row, or by the default
relation where that row does not state one. -/
theorem rows_read_as_rightNested (default : Relation) (name : List Row → String)
    (rows : List Row) :
    (Filter.rows rows).clause? default =
      (tree (Rows.rightNested? default name (Rows.usable rows))).clause? default ∧
    ∀ style, (Filter.rows rows).preview style default none =
      (tree (Rows.rightNested? default name (Rows.usable rows))).preview style default none := by
  constructor
  · rw [clause?_tree, Rows.formula?_rightNested?]
    exact Rows.value_compile default rows
  · intro style
    rw [preview_tree, Rows.formula?_rightNested?]
    exact Rows.preview_eq style default rows

end Filter

end FilterQuery
