import FilterQuery.Proofs.RightNested
import FilterQuery.Submission

/-!
# Formulas of filters

A filter has a formula in either of its two forms, and its query, its previews and its submission
are read off that formula.  They fail where a usable condition has no clause or no text, and
nowhere else: a condition that cannot be used is no atom of the formula, so nothing is asked of it.

Main results:

- `alternating_of_formula?`: the formula of a filter is alternating.
- `atoms_formula?`: its atoms are the usable conditions of the filter, in order.
- `formula?_normalize`, `formula?_prune`: a tree in normal form, and what can be used of it, have
  its formula.
- `formula?_usable?`: what can be used of a filter has the formula of the whole filter.
- `clause?_eq`, `preview_eq`: the query and the previews of a filter are readings of its formula.
- `exists_formula_of_clause?`: the clause of a filter is put together from those of its conditions.
- `exists_clause?_iff`, `exists_preview_iff`: a filter has a query, or a preview, exactly when all
  of its usable conditions have a clause, or a text.
-/

namespace FilterQuery

open Number

variable {α β ε : Type}

/-! ## Atoms joined from the right -/

namespace Formula

/-- Atoms joined from the right form an alternating formula. -/
theorem alternating_chain (first : α) (below : List (Relation × α)) :
    (chain first below).Alternating := by
  induction below generalizing first with
  | nil => exact .atom first
  | cons item rest ih =>
      rcases item with ⟨relation, next⟩
      have hrest := ih next
      have hpos := hrest.length_parts_pos relation
      rw [chain_cons]
      refine .junction ?_ ?_ ?_
      · rw [List.length_cons]
        omega
      · intro part hpart
        rcases List.mem_cons.mp hpart with rfl | hpart
        · simp [relation?]
        · exact (hrest.of_mem_parts hpart).2
      · intro part hpart
        rcases List.mem_cons.mp hpart with rfl | hpart
        · exact .atom first
        · exact (hrest.of_mem_parts hpart).1

/-- The atoms stand in the order in which they were joined. -/
theorem atoms_chain (first : α) (below : List (Relation × α)) :
    (chain first below).atoms = first :: below.map Prod.snd := by
  induction below generalizing first with
  | nil => rfl
  | cons item rest ih =>
      rcases item with ⟨relation, next⟩
      rw [chain_cons, atoms_junction, List.flatMap_cons, flatMap_atoms_parts, ih]
      rfl

/-- Replacing the atoms succeeds exactly when it does at every atom. -/
theorem exists_traverse_iff (f : α → Except ε β) (formula : Formula α) :
    (∃ result, formula.traverse f = .ok result) ↔ ∀ a ∈ formula.atoms, ∃ b, f a = .ok b := by
  induction formula with
  | atom a =>
      rw [traverse, Traversal.exists_map_iff]
      simp [atoms]
  | junction relation parts ih =>
      rw [traverse_junction, Traversal.exists_map_iff, Traversal.exists_mapM_iff, atoms_junction]
      constructor
      · intro hparts a ha
        rcases List.mem_flatMap.mp ha with ⟨part, hpart, ha⟩
        exact (ih part hpart).mp (hparts part hpart) a ha
      · intro hatoms part hpart
        exact (ih part hpart).mpr fun a ha =>
          hatoms a (List.mem_flatMap.mpr ⟨part, hpart, ha⟩)

/-- Replacing the atoms of what may be no formula at all succeeds exactly when it does at every
atom. -/
theorem exists_mapM_traverse_iff (f : α → Except ε β) (formula : Option (Formula α)) :
    (∃ result, formula.mapM (traverse f) = .ok result) ↔
      ∀ a ∈ formula.elim [] atoms, ∃ b, f a = .ok b := by
  cases formula with
  | none => simp [pure, Except.pure]
  | some formula =>
      rw [Option.mapM_some, Traversal.exists_map_iff, exists_traverse_iff, Option.elim_some]

end Formula

/-! ## Normal and pruned trees -/

namespace Node

/-- Children that are grouped again are joined as their formulas are. -/
theorem formula?_regroup (id : String) (relation : Relation) (children : List Node) :
    (regroup id relation children).bind formula? =
      Formula.join relation (children.filterMap formula?) := by
  match children with
  | [] => rfl
  | [child] => cases h : child.formula? <;> simp [regroup, h]
  | first :: second :: rest => rw [regroup_cons_cons, Option.bind_some, formula?_group]

/-- A group whose children keep their formulas keeps its own when they are grouped again. -/
theorem formula?_regroup_filterMap {change : Node → Option Node} {children : List Node}
    (h : ∀ child ∈ children, (change child).bind formula? = child.formula?)
    (id : String) (relation : Relation) :
    (regroup id relation (children.filterMap change)).bind formula? =
      (group id relation children).formula? := by
  rw [formula?_regroup, formula?_group, List.filterMap_filterMap, List.filterMap_congr h]

/-- A node in normal form has the formula that it had before. -/
theorem formula?_normalize (node : Node) : node.normalize.bind formula? = node.formula? := by
  induction node with
  | leaf l => rw [normalize_leaf, Option.bind_some]
  | group id relation children ih =>
      rw [normalize_group]
      exact formula?_regroup_filterMap ih id relation

/-- A node without the conditions that cannot be used has the formula of the whole node. -/
theorem formula?_prune (node : Node) : node.prune.bind formula? = node.formula? := by
  induction node with
  | leaf l =>
      rw [prune, formula?_leaf, Condition.isUsable]
      cases h : l.condition.comparison? with
      | none => rfl
      | some comparison => simp [formula?_leaf, h]
  | group id relation children ih =>
      rw [prune_group]
      exact formula?_regroup_filterMap ih id relation

end Node

/-! ## Rows that can be used -/

namespace Rows

/-- Taking the usable rows only leaves out no comparison. -/
theorem compared_usable (rows : List Row) : compared (usable rows) = compared rows := by
  induction rows with
  | nil => rfl
  | cons row rest ih =>
      cases h : row.comparison? with
      | none =>
          have hleft : usable (row :: rest) = usable rest := by
            simp [usable, Condition.isUsable, h]
          rw [hleft, compared_cons_of_none h, ih]
      | some comparison =>
          have hkept : usable (row :: rest) = row :: usable rest := by
            simp [usable, Condition.isUsable, h]
          rw [hkept, compared_cons_of_some h, compared_cons_of_some h, ih]

/-- The relation of the first row does not count. -/
theorem formula?_withBase (default : Relation) (rows : List Row) :
    formula? default (compared (withBase rows)) = formula? default (compared rows) := by
  cases rows with
  | nil => rfl
  | cons row rest =>
      have hsame : (row.withRelation none).comparison? = row.comparison? := rfl
      cases h : row.comparison? with
      | none => rw [withBase, compared_cons_of_none (hsame.trans h), compared_cons_of_none h]
      | some comparison =>
          rw [withBase, compared_cons_of_some (hsame.trans h), compared_cons_of_some h]
          rfl

/-- The comparisons of rows are those of their conditions. -/
theorem map_snd_compared (rows : List Row) :
    (compared rows).map Prod.snd = rows.filterMap fun row => row.comparison? := by
  induction rows with
  | nil => rfl
  | cons row rest ih =>
      cases h : row.comparison? with
      | none => simp [compared_cons_of_none h, h, ih]
      | some comparison => simp [compared_cons_of_some h, h, ih]

/-- The atoms of the formula of rows are the comparisons of the rows. -/
theorem atoms_formula? (default : Relation) (kept : List (Row × α)) :
    (formula? default kept).elim [] Formula.atoms = kept.map Prod.snd := by
  cases kept with
  | nil => rfl
  | cons item below =>
      rw [formula?, Option.elim_some, Formula.atoms_chain, List.map_map]
      rfl

end Rows

/-! ## Filters -/

namespace Filter

/-- The formula of a filter, if anything in it can be used. -/
def formula? (default : Relation) : Filter → Option (Formula Comparison)
  | tree root => root.bind Node.formula?
  | rows rs => Rows.formula? default (Rows.compared rs)

/-- The formula of a filter is alternating. -/
theorem alternating_of_formula? {default : Relation} {filter : Filter}
    {formula : Formula Comparison} (h : filter.formula? default = some formula) :
    formula.Alternating := by
  cases filter with
  | tree root =>
      rcases Option.bind_eq_some_iff.mp h with ⟨node, _, hnode⟩
      exact Node.alternating_of_formula? hnode
  | rows rs =>
      rw [formula?] at h
      cases hkept : Rows.compared rs with
      | nil => simp [hkept, Rows.formula?] at h
      | cons item below =>
          rw [hkept, Rows.formula?] at h
          rcases Option.some.inj h with rfl
          exact Formula.alternating_chain _ _

/-- The atoms of the formula of a filter are its usable conditions, in order. -/
theorem atoms_formula? (default : Relation) (filter : Filter) :
    (filter.formula? default).elim [] Formula.atoms =
      filter.conditions.filterMap Condition.comparison? := by
  cases filter with
  | tree root =>
      cases root with
      | none => rfl
      | some node => exact node.atoms_formula?
  | rows rs =>
      rw [formula?, Rows.atoms_formula?, Rows.map_snd_compared, conditions, List.filterMap_map]
      rfl

/-- An atom of the formula of a filter is a usable condition of it. -/
theorem mem_atoms_iff {default : Relation} {filter : Filter} {comparison : Comparison} :
    comparison ∈ (filter.formula? default).elim [] Formula.atoms ↔
      ∃ c ∈ filter.conditions, c.comparison? = some comparison := by
  rw [atoms_formula?, List.mem_filterMap]

/-- The clause of a filter is that of its formula. -/
theorem clause?_eq (default : Relation) (filter : Filter) :
    filter.clause? default =
      Option.map Formula.clauseOf <$>
        (filter.formula? default).mapM (Formula.traverse Comparison.clause) := by
  cases filter with
  | tree root => exact clause?_tree default root
  | rows rs => exact Rows.value_compile default rs

/-- The clause of a filter is read off an alternating formula, whose atoms are the clauses of usable
conditions. -/
theorem exists_formula_of_clause? {default : Relation} {filter : Filter} {clause : Clause}
    (h : filter.clause? default = .ok (some clause)) :
    ∃ formula : Formula Clause, formula.clauseOf = clause ∧ formula.Alternating ∧
      ∀ atom ∈ formula.atoms, ∃ c ∈ filter.conditions, ∃ comparison : Comparison,
        c.comparison? = some comparison ∧ comparison.clause = .ok atom := by
  rw [clause?_eq] at h
  rcases Traversal.map_eq_ok_iff.mp h with ⟨result, hresult, hclause⟩
  rcases Option.map_eq_some_iff.mp hclause with ⟨formula, rfl, rfl⟩
  cases hsource : filter.formula? default with
  | none =>
      rw [hsource] at hresult
      cases hresult
  | some source =>
      rw [hsource, Option.mapM_some] at hresult
      rcases Traversal.map_eq_ok_iff.mp hresult with ⟨found, hfound, heq⟩
      rcases Option.some.inj heq with rfl
      refine ⟨found, rfl, (alternating_of_formula? hsource).of_traverse hfound, ?_⟩
      intro atom hatom
      rcases Formula.exists_mem_atoms_of_traverse hfound hatom with ⟨comparison, hmem, hclause⟩
      have hsome : comparison ∈ (filter.formula? default).elim [] Formula.atoms := by
        rwa [hsource, Option.elim_some]
      rcases mem_atoms_iff.mp hsome with ⟨c, hc, hcomparison⟩
      exact ⟨c, hc, comparison, hcomparison, hclause⟩

/-- What can be used of a filter has the formula of the whole filter. -/
theorem formula?_usable? (default : Relation) (filter : Filter) :
    filter.usable?.bind (formula? default) = filter.formula? default := by
  cases filter with
  | tree root =>
      cases root with
      | none => rfl
      | some node =>
          rw [usable?, formula?, Option.bind_some, Option.bind_some, ← node.formula?_prune]
          cases node.prune <;> rfl
  | rows rs =>
      rw [formula?, ← Rows.compared_usable, usable?]
      cases Rows.usable rs with
      | nil => rfl
      | cons row rest => exact Rows.formula?_withBase default (row :: rest)

/-- What can be used of a filter has the document of the whole filter. -/
theorem document_usable? (default : Relation) (filter : Filter) :
    (filter.usable?.map (document default)).getD (.ok matchAll) = filter.document default := by
  have hformula := filter.formula?_usable? default
  cases hkept : filter.usable? with
  | none =>
      rw [hkept, Option.bind_none] at hformula
      rw [document, clause?_eq, ← hformula]
      rfl
  | some kept =>
      rw [hkept, Option.bind_some] at hformula
      rw [Option.map_some, Option.getD_some, document, document, clause?_eq, clause?_eq, hformula]

/-! ## Success -/

/-- A filter has a query exactly when all of its conditions have a clause or are left out. -/
theorem exists_clause?_iff (default : Relation) (filter : Filter) :
    (∃ clause, filter.clause? default = .ok clause) ↔
      ∀ c ∈ filter.conditions, ∀ comparison ∈ c.comparison?,
        ∃ clause, comparison.clause = .ok clause := by
  rw [clause?_eq, Traversal.exists_map_iff, Formula.exists_mapM_traverse_iff]
  constructor
  · intro h c hc comparison hcomparison
    exact h comparison (mem_atoms_iff.mpr ⟨c, hc, hcomparison⟩)
  · intro h comparison hatom
    rcases mem_atoms_iff.mp hatom with ⟨c, hc, hcomparison⟩
    exact h c hc comparison hcomparison

/-- The relation outside of the preview of a filter; rows are never shown inside of another text. -/
def outside (ambient : Option Relation) : Filter → Option Relation
  | tree _ => ambient
  | rows _ => none

/-- The preview of a filter is the reading of its formula. -/
theorem preview_eq (style : Style) (default : Relation) (ambient : Option Relation)
    (filter : Filter) :
    filter.preview style default ambient =
      (fun written => (written.map (style.writeWithin (filter.outside ambient))).getD "") <$>
        (filter.formula? default).mapM
          (Formula.traverse fun c => style.condition c.condition) := by
  cases filter with
  | tree root =>
      cases root with
      | none => rfl
      | some node => exact node.preview_eq style ambient
  | rows rs => exact Rows.preview_eq style default rs

/-- A filter has a preview exactly when all of its usable conditions have a text. -/
theorem exists_preview_iff (style : Style) (default : Relation) (ambient : Option Relation)
    (filter : Filter) :
    (∃ text, filter.preview style default ambient = .ok text) ↔
      ∀ c ∈ filter.conditions, c.isUsable = true → ∃ text, style.condition c = .ok text := by
  rw [preview_eq, Traversal.exists_map_iff, Formula.exists_mapM_traverse_iff]
  constructor
  · intro h c hc husable
    rcases Option.isSome_iff_exists.mp husable with ⟨comparison, hcomparison⟩
    rcases Condition.comparison?_eq_some hcomparison with ⟨hcondition, _⟩
    simpa [hcondition] using h comparison (mem_atoms_iff.mpr ⟨c, hc, hcomparison⟩)
  · intro h comparison hatom
    rcases mem_atoms_iff.mp hatom with ⟨c, hc, hcomparison⟩
    rcases Condition.comparison?_eq_some hcomparison with ⟨hcondition, _⟩
    have husable : c.isUsable = true := by simp [Condition.isUsable, hcomparison]
    rw [hcondition]
    exact h c hc husable

end Filter

end FilterQuery
