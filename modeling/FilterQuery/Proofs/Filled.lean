import FilterQuery.Proofs.Comparison
import FilterQuery.Proofs.RightNested

/-!
# Values that were nothing

A record leaves out what is nothing, and what is left out of a record is read as the empty text.
Neither is filled in, so a filter asks for the same in which of the two ways a value is missing.
The same holds of a row that stands in a tree: the tree makes no use of its relation.

Main results:

- `Condition.clause?_filled`: the empty text in place of nothing leaves the clause as it is.
- `Node.value_compile_of_shape`: a tree of the same shape and with the same clauses at its leaves
  has the same clause.
- `Rows.value_compile_map`: rows that keep their clauses and relations keep the clause of all.
- `Filter.document_filled`, `Filter.document_plain`: a filter keeps its document.
-/

namespace FilterQuery

open Number

/-! ## The empty text in place of nothing -/

/-- A value with the empty text in place of nothing. -/
def Value.filled : Value → Value
  | null => text ""
  | value => value

/-- A bound whose limit is the empty text instead of nothing. -/
def Bound.filled (bound : Bound) : Bound :=
  { bound with limit := bound.limit.filled }

/-- A condition whose values are the empty text instead of nothing. -/
def Condition.filled (c : Condition) : Condition :=
  { c with value := c.value.filled, lower := c.lower.filled, upper := c.upper.filled }

/-- A row whose values are the empty text instead of nothing. -/
def Row.filled (row : Row) : Row :=
  { row with toCondition := row.toCondition.filled }

/-- A leaf whose values are the empty text instead of nothing. -/
def Leaf.filled : Leaf → Leaf
  | plain c => plain c.filled
  | row r => row r.filled

/-- A leaf as the plain condition that it states. -/
def Leaf.toPlain (l : Leaf) : Leaf :=
  .plain l.condition

@[simp]
theorem Leaf.condition_filled (l : Leaf) : l.filled.condition = l.condition.filled := by
  cases l <;> rfl

namespace Value

/-- The empty text is as blank as nothing. -/
@[simp]
theorem isBlank_filled (value : Value) : value.filled.isBlank = value.isBlank := by
  cases value <;> rfl

/-- What was filled in stays as it is. -/
theorem filled_of_not_isBlank {value : Value} (h : value.isBlank = false) :
    value.filled = value := by
  cases value with
  | null => contradiction
  | _ => rfl

end Value

/-! ## Clauses -/

namespace Condition

/-- A condition that differs from another one in nothing that is checked makes the same comparison,
of its own values. -/
theorem comparison?_of_same {c other : Condition} (hfield : other.field = c.field)
    (hoperator : other.operator = c.operator) (hvalue : other.value.isBlank = c.value.isBlank)
    (hlower : other.lower.limit.isBlank = c.lower.limit.isBlank)
    (hupper : other.upper.limit.isBlank = c.upper.limit.isBlank) :
    other.comparison? = c.comparison?.map fun comparison => ⟨other, comparison.operator⟩ := by
  unfold comparison? check
  rw [hfield, hoperator, hvalue, hlower, hupper]
  split
  · rfl
  · cases c.operator with
    | none => rfl
    | some op =>
        dsimp only
        cases op.need with
        | nothing => rfl
        | value => cases c.value.isBlank <;> rfl
        | bound => cases c.lower.limit.isBlank <;> cases c.upper.limit.isBlank <;> rfl

/-- A condition makes the same comparison under another identifier. -/
theorem comparison?_withId (c : Condition) (id : String) :
    Condition.comparison? { c with id } =
      c.comparison?.map fun comparison => ⟨{ c with id }, comparison.operator⟩ :=
  comparison?_of_same rfl rfl rfl rfl rfl

/-- A condition makes the same comparison, of the values as they are now. -/
theorem comparison?_filled (c : Condition) :
    c.filled.comparison? = c.comparison?.map fun comparison => ⟨c.filled, comparison.operator⟩ :=
  comparison?_of_same rfl rfl c.value.isBlank_filled c.lower.limit.isBlank_filled
    c.upper.limit.isBlank_filled

/-- A bound is coerced as before, whether it was filled in or not. -/
theorem coerceBound_filled (field : String) (bound : Bound) :
    coerceBound field bound.filled = coerceBound field bound := by
  have hsame : bound.filled.limit.isBlank = bound.limit.isBlank := bound.limit.isBlank_filled
  unfold coerceBound
  rw [hsame]
  cases hblank : bound.limit.isBlank with
  | true => rfl
  | false =>
      have hfilled : bound.filled = bound := by
        rw [Bound.filled, Value.filled_of_not_isBlank hblank]
      rw [hfilled]

end Condition

/-- The clause of a comparison is left as it is: what its operator needs was filled in, and nothing
else is looked at. -/
theorem Comparison.Ready.clause_filled {comparison : Comparison} (h : comparison.Ready) :
    (Comparison.mk comparison.condition.filled comparison.operator).clause =
      comparison.clause := by
  rcases comparison with ⟨c, op⟩
  -- An operator that looks at the value needs it, so the value was not nothing.
  have hvalue : op.need = .value → c.filled.value = c.value := fun hneed =>
    Value.filled_of_not_isBlank (h.valued hneed)
  have hfield : c.filled.field = c.field := rfl
  cases op with
  | equal | notEqual =>
      simp only [clause, Condition.equality, hfield, hvalue rfl]
  | oneOf | noneOf =>
      simp only [clause, Condition.membership, hfield, hvalue rfl]
  | present | absent => rfl
  | range =>
      have hlower := Condition.coerceBound_filled c.field c.lower
      have hupper := Condition.coerceBound_filled c.field c.upper
      have hbetween : c.filled.between = c.between := by
        unfold Condition.between
        rw [← hlower, ← hupper]
        rfl
      simp only [clause, hbetween]
  | startsWith =>
      simp only [clause, Condition.beginning, hfield, hvalue rfl]
  | wildcard | queryString =>
      simp only [clause, hfield, hvalue rfl]

/-- The empty text in place of nothing leaves the clause of a condition as it is. -/
theorem Condition.clause?_filled (c : Condition) : c.filled.clause? = c.clause? := by
  unfold clause?
  rw [comparison?_filled]
  cases h : c.comparison? with
  | none => rfl
  | some comparison =>
      rcases ready_of_comparison? h with ⟨rfl, hready⟩
      exact congrArg (Except.map some) hready.clause_filled

/-! ## Trees with other leaves -/

namespace Node

mutual

/-- A tree with every leaf replaced. -/
def mapLeaves (f : Leaf → Leaf) : Node → Node
  | leaf l => leaf (f l)
  | group id relation children => group id relation (mapLeavesAll f children)

/-- Several trees with every leaf replaced. -/
def mapLeavesAll (f : Leaf → Leaf) : List Node → List Node
  | [] => []
  | child :: rest => child.mapLeaves f :: mapLeavesAll f rest

end

/-- The leaves of a group are replaced in its children. -/
theorem mapLeaves_group (f : Leaf → Leaf) (id : String) (relation : Relation)
    (children : List Node) :
    (group id relation children).mapLeaves f =
      group id relation (children.map (mapLeaves f)) := by
  rw [mapLeaves]
  congr 1
  induction children with
  | nil => rfl
  | cons child rest ih => rw [mapLeavesAll, List.map_cons, ih]

/-- Replacing every leaf twice is one replacement. -/
theorem mapLeaves_mapLeaves (f g : Leaf → Leaf) (node : Node) :
    (node.mapLeaves f).mapLeaves g = node.mapLeaves (g ∘ f) := by
  induction node with
  | leaf l => rfl
  | group id relation children ih =>
      rw [mapLeaves_group, mapLeaves_group, mapLeaves_group, List.map_map]
      congr 1
      exact List.map_congr_left ih

/-- A tree of the same shape, whose leaves have the same clauses, is lowered to the same. -/
theorem value_lower_of_shape {f : Node → Node}
    (hleaf : ∀ l, ∃ other, f (leaf l) = leaf other ∧
      other.condition.clause? = l.condition.clause?)
    (hgroup : ∀ id relation children, ∃ other, f (group id relation children) =
      group other relation (children.map f)) (node : Node) :
    (f node).lower.value = node.lower.value := by
  induction node with
  | leaf l =>
      rcases hleaf l with ⟨other, hsame, hclause⟩
      rw [hsame, lower, lower, Compilation.value_map, Compilation.value_map,
        Condition.value_compile, Condition.value_compile, hclause]
  | group id relation children ih =>
      rcases hgroup id relation children with ⟨other, hsame⟩
      have hchildren : (children.map f).mapM (fun child => child.lower.value) =
          children.mapM fun child => child.lower.value := by
        rw [List.mapM_map]
        exact Traversal.mapM_congr ih
      rw [hsame, lower, lower, Compilation.value_map, Compilation.value_map, value_lowerAll,
        value_lowerAll, hchildren]

/-- So it has the same clause. -/
theorem value_compile_of_shape {f : Node → Node}
    (hleaf : ∀ l, ∃ other, f (leaf l) = leaf other ∧
      other.condition.clause? = l.condition.clause?)
    (hgroup : ∀ id relation children, ∃ other, f (group id relation children) =
      group other relation (children.map f)) (node : Node) :
    (f node).compile.value = node.compile.value := by
  rw [compile, compile, Compilation.value_map, Compilation.value_map,
    value_lower_of_shape hleaf hgroup]

/-- Leaves that keep their clauses keep the clause of the tree. -/
theorem value_compile_mapLeaves {f : Leaf → Leaf}
    (h : ∀ l, (f l).condition.clause? = l.condition.clause?) (node : Node) :
    (node.mapLeaves f).compile.value = node.compile.value :=
  value_compile_of_shape (f := mapLeaves f) (fun l => ⟨f l, rfl, h l⟩)
    (fun id relation children => ⟨id, mapLeaves_group f id relation children⟩) node

end Node

/-! ## Filters -/

namespace Rows

/-- Rows that keep their clauses are kept with them. -/
theorem value_compileEach_map {f : Row → Row}
    (h : ∀ row, (f row).toCondition.clause? = row.toCondition.clause?) (rows : List Row) :
    (compileEach (rows.map f)).value =
      List.map (fun item => (f item.1, item.2)) <$> (compileEach rows).value := by
  induction rows with
  | nil => rfl
  | cons row rest ih =>
      rw [List.map_cons, compileEach, compileEach, Compilation.value_bind, Compilation.value_bind,
        Condition.value_compile, Condition.value_compile, h]
      cases row.toCondition.clause? with
      | error limit => rfl
      | ok clause =>
          change ((compileEach (rest.map f) >>= _).value) =
            _ <$> (compileEach rest >>= _).value
          rw [Compilation.value_bind, Compilation.value_bind, ih]
          cases (compileEach rest).value with
          | error limit => rfl
          | ok others => cases clause <;> rfl

/-- Rows that keep their clauses and relations keep the clause of all of them. -/
theorem value_compile_map {f : Row → Row}
    (h : ∀ row, (f row).toCondition.clause? = row.toCondition.clause?)
    (hrelation : ∀ row, (f row).relation = row.relation) (default : Relation)
    (rows : List Row) : (compile default (rows.map f)).value = (compile default rows).value := by
  rw [compile, compile, Compilation.value_bind, Compilation.value_bind, value_compileEach_map h]
  cases (compileEach rows).value with
  | error limit => rfl
  | ok kept =>
      have hclauses : (kept.map fun item => (f item.1, item.2)).map Prod.snd =
          kept.map Prod.snd := by
        rw [List.map_map]
        rfl
      have hrelations : relations default ((kept.map fun item => (f item.1, item.2)).map
          Prod.fst) = relations default (kept.map Prod.fst) := by
        simp [relations, ← List.map_tail, hrelation]
      change Except.ok (joinAll _ _ _ _) = Except.ok (joinAll _ _ _ _)
      rw [hclauses, hrelations]

end Rows

namespace Filter

/-- A filter whose values are the empty text instead of nothing. -/
def filled : Filter → Filter
  | tree root => tree (root.map (Node.mapLeaves Leaf.filled))
  | rows rs => rows (rs.map Row.filled)

/-- A filter in whose tree rows are the plain conditions that they state. -/
def plain : Filter → Filter
  | tree root => tree (root.map (Node.mapLeaves Leaf.toPlain))
  | rows rs => rows rs

/-- A filter asks for the same with the empty text in place of nothing. -/
theorem document_filled (default : Relation) (filter : Filter) :
    filter.filled.document default = filter.document default := by
  unfold document clause?
  cases filter with
  | tree root =>
      cases root with
      | none => rfl
      | some node =>
          have hnode := node.value_compile_mapLeaves (f := Leaf.filled) fun l => by
            rw [Leaf.condition_filled, Condition.clause?_filled]
          exact congrArg (Except.map queryDocument) hnode
  | rows rs =>
      have hrows := Rows.value_compile_map (f := Row.filled)
        (fun row => row.toCondition.clause?_filled) (fun _ => rfl) default rs
      exact congrArg (Except.map queryDocument) hrows

/-- A filter asks for the same with plain conditions in place of the rows in its tree. -/
theorem document_plain (default : Relation) (filter : Filter) :
    filter.plain.document default = filter.document default := by
  unfold document clause?
  cases filter with
  | tree root =>
      cases root with
      | none => rfl
      | some node =>
          have hnode := node.value_compile_mapLeaves (f := Leaf.toPlain) fun l => rfl
          exact congrArg (Except.map queryDocument) hnode
  | rows rs => rfl

end Filter

end FilterQuery
