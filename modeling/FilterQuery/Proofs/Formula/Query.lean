import FilterQuery.Node.Clause
import FilterQuery.Proofs.Formula.Tree

/-!
# Queries are read off formulas

The clause of a tree has a group exactly where the formula of the tree has one, and the clause of a
condition where the formula has that condition as an atom.

Main results:

- `contribution_ofFormula`: what is lowered is taken apart as its formula is.
- `value_lower`: a node is lowered to the reading of its formula.
- `value_compile`: the clause of a node is that of its formula.
-/

namespace FilterQuery

/-! ## Reading clauses off formulas -/

namespace Formula

mutual

/-- The clause of a formula whose atoms are clauses. -/
def clauseOf : Formula Clause → Clause
  | atom clause => clause
  | junction relation parts => .junction relation (clausesOf parts)

/-- The clauses of several formulas. -/
def clausesOf : List (Formula Clause) → List Clause
  | [] => []
  | part :: rest => part.clauseOf :: clausesOf rest

end

@[simp]
theorem clauseOf_atom (clause : Clause) : (atom clause).clauseOf = clause := by
  rw [clauseOf]

/-- A group in the formula is a group in the query. -/
@[simp]
theorem clauseOf_junction (relation : Relation) (parts : List (Formula Clause)) :
    (junction relation parts).clauseOf = .junction relation (parts.map clauseOf) := by
  rw [clauseOf]
  congr 1
  induction parts with
  | nil => rfl
  | cons part rest ih => simp [clausesOf, ih]

end Formula

/-! ## Lowering -/

namespace Lowered

/-- What a formula stands for in the course of lowering. -/
def ofFormula : Formula Clause → Lowered
  | .atom clause => single clause
  | .junction relation parts => joined relation (parts.map Formula.clauseOf)

/-- The clause is that of the formula. -/
@[simp]
theorem clause_ofFormula (formula : Formula Clause) :
    (ofFormula formula).clause = formula.clauseOf := by
  cases formula <;> simp [ofFormula, clause]

/-- What is lowered is taken apart as its formula is. -/
theorem contribution_ofFormula (relation : Relation) (formula : Formula Clause) :
    (ofFormula formula).contribution relation =
      (formula.parts relation).map Formula.clauseOf := by
  cases formula with
  | atom clause => simp [ofFormula, contribution]
  | junction inner parts =>
      by_cases hrel : inner = relation
      · subst hrel
        simp [ofFormula, contribution]
      · simp [ofFormula, contribution, hrel, Formula.parts_junction_of_ne hrel]

/-- What is lowered is joined as its formulas are. -/
theorem join_map_ofFormula (relation : Relation) (formulas : List (Formula Clause)) :
    join relation (formulas.map ofFormula) =
      (Formula.join relation formulas).map ofFormula := by
  match formulas with
  | [] => rfl
  | [formula] => rfl
  | first :: second :: rest =>
      have hcontributions : ((first :: second :: rest).map ofFormula).flatMap
          (contribution relation) =
            ((first :: second :: rest).flatMap (Formula.parts relation)).map Formula.clauseOf := by
        rw [List.flatMap_map, List.map_flatMap]
        exact List.flatMap_congr fun formula _ => contribution_ofFormula relation formula
      rw [Formula.join_cons_cons, Option.map_some, ofFormula, ← hcontributions]
      exact join_cons_cons relation _ _ _

end Lowered

namespace Node

/-- The children of a group are lowered one by one. -/
theorem value_lowerAll (children : List Node) :
    (lowerAll children).value =
      List.reduceOption <$> children.mapM fun child => child.lower.value := by
  refine Traversal.collect_eq_mapM (fun child => child.lower.value)
    (fun children => (lowerAll children).value) ?_ ?_ children
  · rw [lowerAll]
    rfl
  · intro child rest
    rw [lowerAll, Compilation.value_bind]
    congr 1
    funext first
    rw [Compilation.value_bind]
    rfl

/-- A condition is lowered to its clause. -/
theorem value_lower_leaf (l : Leaf) :
    (leaf l).lower.value = l.condition.comparison?.mapM fun comparison =>
      (fun clause => Lowered.ofFormula (.atom clause)) <$> comparison.clause := by
  rw [lower, Compilation.value_map, Condition.value_compile, Condition.clause?]
  cases l.condition.comparison? with
  | none => rfl
  | some comparison => cases h : comparison.clause <;> simp [h, Except.map, Lowered.ofFormula]

/-- A node is lowered to the reading of its formula. -/
theorem value_lower (node : Node) :
    node.lower.value =
      Option.map Lowered.ofFormula <$> node.formula?.mapM (Formula.traverse Comparison.clause) := by
  refine walk_eq_read_formula? (fun node => node.lower.value) value_lower_leaf ?_
    (fun relation formulas _ => Lowered.join_map_ofFormula relation formulas) node
  intro id relation children
  rw [lower, Compilation.value_map, value_lowerAll]
  simp

/-- The clause of a node is that of its formula. -/
theorem value_compile (node : Node) :
    node.compile.value =
      Option.map Formula.clauseOf <$> node.formula?.mapM (Formula.traverse Comparison.clause) := by
  rw [compile, Compilation.value_map, value_lower]
  simp [Function.comp_def]

end Node

end FilterQuery
