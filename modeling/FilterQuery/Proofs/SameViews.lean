import FilterQuery.Proofs.Formula.Filter

/-!
# Filters with the same views

The views of a filter are its query and its previews.  All of them are readings of the formula of
the filter, so filters of one form that have the same formula have the same views, and fail alike.

Main results:

- `sameViews_tree`, `sameViews_rows`: filters with the same formula have the same views.
- `sameViews_normalize_and_prune`: a tree in normal form, and what can be used of a tree, have the
  views of the whole tree.
-/

namespace FilterQuery.Filter

/-- Whether two filters ask for the same and are shown as the same texts, inside of whatever text
they stand.  Where one of them cannot be compiled or shown, neither can the other. -/
structure SameViews (first second : Filter) : Prop where
  clause : ∀ default, first.clause? default = second.clause? default
  document : ∀ default, first.document default = second.document default
  preview : ∀ style default ambient,
    first.preview style default ambient = second.preview style default ambient

/-- Filters of one form that have the same formula have the same views. -/
theorem sameViews_of_formula? {first second : Filter}
    (hformula : ∀ default, first.formula? default = second.formula? default)
    (houtside : ∀ ambient, first.outside ambient = second.outside ambient) :
    SameViews first second := by
  have hclause : ∀ default, first.clause? default = second.clause? default := fun default => by
    rw [clause?_eq, clause?_eq, hformula]
  refine ⟨hclause, fun default => ?_, fun style default ambient => ?_⟩
  · rw [document, document, hclause]
  · rw [preview_eq, preview_eq, hformula, houtside]

/-- Trees with the same formula have the same views. -/
theorem sameViews_tree {first second : Option Node}
    (h : first.bind Node.formula? = second.bind Node.formula?) :
    SameViews (tree first) (tree second) :=
  sameViews_of_formula? (fun _ => h) fun _ => rfl

/-- Rows with the same formula have the same views. -/
theorem sameViews_rows {first second : List Row}
    (h : ∀ default, Rows.formula? default (Rows.compared first) =
      Rows.formula? default (Rows.compared second)) :
    SameViews (rows first) (rows second) :=
  sameViews_of_formula? h fun _ => rfl

/-- A tree keeps its views when it is brought into normal form, and when the conditions that cannot
be used are taken out as well. -/
theorem sameViews_normalize_and_prune (root : Option Node) :
    SameViews (tree (root.bind Node.normalize)) (tree root) ∧
      SameViews (tree (root.bind Node.prune)) (tree root) := by
  constructor
  · refine sameViews_tree ?_
    rw [Option.bind_assoc]
    simp only [Node.formula?_normalize]
  · refine sameViews_tree ?_
    rw [Option.bind_assoc]
    simp only [Node.formula?_prune]

end FilterQuery.Filter
