import FilterQuery.Proofs.Formula.Preview
import FilterQuery.Proofs.Formula.Query

/-!
# Queries and previews group in step

The query and the preview of a tree come from two walks, which filter and unwrap on their own.
Both are readings of the one formula of the tree: a nested clause stands exactly where the preview
has parentheses, and the conditions follow each other in the same order.

Main results:

- `clause?_of_comparison?`: an atom of the formula is read as the clause of its condition.
- `query_and_previews_read_formula`: the query and the previews of a tree are readings of its
  formula.
-/

namespace FilterQuery

/-- An atom of the formula is read as the clause of its condition. -/
theorem Condition.clause?_of_comparison? {c : Condition} {comparison : Comparison}
    (h : c.comparison? = some comparison) : c.clause? = some <$> comparison.clause := by
  rw [clause?, h]
  rfl

namespace Node

/-- What stands at an atom of the formula of a tree is a usable condition of the tree, and is
replaced by the clause of that condition. -/
theorem clause?_of_mem_atoms {node : Node} {formula : Formula Comparison} {comparison : Comparison}
    (hformula : node.formula? = some formula) (hatom : comparison ∈ formula.atoms) :
    comparison.condition ∈ node.conditions ∧ comparison.condition.isUsable = true ∧
      comparison.condition.compile.value = some <$> comparison.clause := by
  have hatoms := node.atoms_formula?
  rw [hformula, Option.elim_some] at hatoms
  rw [hatoms] at hatom
  rcases List.mem_filterMap.mp hatom with ⟨c, hc, hcomparison⟩
  rcases Condition.comparison?_eq_some hcomparison with ⟨rfl, _⟩
  refine ⟨hc, ?_, ?_⟩
  · rw [Condition.isUsable, hcomparison]
    rfl
  · rw [Condition.value_compile, Condition.clause?_of_comparison? hcomparison]

/-- The query and the previews of a tree are readings of its formula, which depends on the tree
alone.  The formula is alternating, and its atoms are the usable conditions in order.  The query
has the clause of a condition for every atom and a joined clause for every group.  A preview has the
text of a condition for every atom and, for every group, the joined texts of its parts, wrapped
where they are groups themselves; the whole is wrapped once more where the relation outside differs
from that of the formula. -/
theorem query_and_previews_read_formula (node : Node) :
    (∀ formula ∈ node.formula?, formula.Alternating ∧
      formula.atoms = node.conditions.filterMap Condition.comparison? ∧
      ∀ comparison ∈ formula.atoms, comparison.condition.isUsable = true ∧
        comparison.condition.compile.value = some <$> comparison.clause) ∧
    (node.formula? = none ↔ ∀ c ∈ node.conditions, c.isUsable = false) ∧
    node.compile.value =
      Option.map Formula.clauseOf <$> node.formula?.mapM (Formula.traverse Comparison.clause) ∧
    ∀ (style : Style) (ambient : Option Relation), node.preview style ambient =
      (fun written => (written.map (style.writeWithin ambient)).getD "") <$>
        node.formula?.mapM (Formula.traverse fun c => style.condition c.condition) := by
  refine ⟨?_, formula?_eq_none_iff node, value_compile node, fun style ambient =>
    preview_eq style ambient node⟩
  intro formula hformula
  refine ⟨alternating_of_formula? hformula, ?_, fun comparison hatom =>
    (clause?_of_mem_atoms hformula hatom).2⟩
  have hatoms := node.atoms_formula?
  rwa [Option.mem_def.mp hformula, Option.elim_some] at hatoms

/-- In a preview, parentheses show which group is nested. -/
example : Style.plain.write (.junction .or [.atom "a", .junction .and [.atom "b", .atom "c"]]) =
    "a OR (b AND c)" := by
  decide +kernel

end Node

end FilterQuery
