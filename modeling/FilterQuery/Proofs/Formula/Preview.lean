import FilterQuery.Filter.Preview
import FilterQuery.Proofs.Formula.Tree

/-!
# Previews are read off formulas

The preview of a tree joins the parts of a group exactly where the formula of the tree has the
group, and puts parentheses around exactly the groups inside groups.

Main results:

- `within_ofFormula`: the text of a child is the text of what its formula contributes.
- `render_eq`: the text of a node is the reading of its formula.
- `preview_eq`: so is its preview, wrapped once more where the relation outside differs.
-/

namespace FilterQuery

/-! ## Reading texts off formulas -/

namespace Style

mutual

/-- The text of a formula whose atoms are texts already. -/
def write (style : Style) : Formula String → String
  | .atom text => text
  | .junction relation parts =>
      String.intercalate (style.joiner relation) (style.writeParts parts)

/-- The texts of the parts of a group, where a group inside a group is wrapped. -/
def writeParts (style : Style) : List (Formula String) → List String
  | [] => []
  | part :: rest =>
      (if part.relation?.isSome then style.group (style.write part) else style.write part)
        :: style.writeParts rest

end

/-- The text of a part of a group, where a group inside a group is wrapped. -/
def writePart (style : Style) (part : Formula String) : String :=
  if part.relation?.isSome then style.group (style.write part) else style.write part

/-- The text of a formula inside of a text that is joined by a relation of its own. -/
def writeWithin (style : Style) (ambient : Option Relation) (formula : Formula String) : String :=
  match ambient, formula.relation? with
  | some outer, some inner =>
      if inner = outer then style.write formula else style.group (style.write formula)
  | _, _ => style.write formula

@[simp]
theorem write_atom (style : Style) (text : String) : style.write (.atom text) = text := by
  rw [write]

/-- The text of a group joins the texts of its parts. -/
theorem write_junction (style : Style) (relation : Relation) (parts : List (Formula String)) :
    style.write (.junction relation parts) =
      String.intercalate (style.joiner relation) (parts.map style.writePart) := by
  rw [write]
  congr 1
  induction parts with
  | nil => rfl
  | cons part rest ih => rw [writeParts, List.map_cons, ih, writePart]

/-- An atom in a group stands there as it is. -/
@[simp]
theorem writePart_atom (style : Style) (text : String) : style.writePart (.atom text) = text := by
  simp [writePart, Formula.relation?]

/-- A group in a group is wrapped. -/
@[simp]
theorem writePart_junction (style : Style) (relation : Relation) (parts : List (Formula String)) :
    style.writePart (.junction relation parts) =
      style.group (style.write (.junction relation parts)) := by
  simp [writePart, Formula.relation?]

end Style

/-- Texts may be joined in groups first, as long as no group is empty. -/
theorem intercalate_flatMap {α : Type} (joiner : String) (g : α → List String) {items : List α}
    (h : ∀ item ∈ items, g item ≠ []) :
    String.intercalate joiner (items.flatMap g) =
      String.intercalate joiner (items.map fun item => String.intercalate joiner (g item)) := by
  induction items with
  | nil => rfl
  | cons item rest ih =>
      have hitem := h item (by simp)
      have hrest := ih fun other hother => h other (List.mem_cons_of_mem _ hother)
      cases rest with
      | nil => simp
      | cons next others =>
          have hnext : (next :: others).flatMap g ≠ [] := by
            have := h next (by simp)
            simp [this]
          rw [List.flatMap_cons, String.intercalate_append_of_ne_nil hitem hnext, hrest,
            List.map_cons, List.map_cons, List.map_cons, String.intercalate_cons_cons]

/-! ## Rendering -/

namespace Rendered

/-- What a formula stands for in the course of rendering. -/
def ofFormula (style : Style) (formula : Formula String) : Rendered :=
  { text := style.write formula, relation := formula.relation? }

/-- The text of a child is the joined text of what its formula contributes. -/
theorem within_ofFormula (style : Style) (relation : Relation) (formula : Formula String) :
    within style relation (ofFormula style formula) =
      String.intercalate (style.joiner relation)
        ((formula.parts relation).map style.writePart) := by
  cases formula with
  | atom text => simp [ofFormula, Formula.relation?]
  | junction inner parts =>
      by_cases hrel : inner = relation
      · subst hrel
        rw [Formula.parts_junction_self, ← Style.write_junction]
        simp [within, ofFormula, Formula.relation?]
      · rw [Formula.parts_junction_of_ne hrel, List.map_singleton, String.intercalate_singleton,
          Style.writePart_junction]
        simp [within, ofFormula, Formula.relation?, hrel]

/-- Texts are joined as their formulas are. -/
theorem join_map_ofFormula (style : Style) (relation : Relation)
    {formulas : List (Formula String)} (h : ∀ formula ∈ formulas, formula.Alternating) :
    join style relation (formulas.map (ofFormula style)) =
      (Formula.join relation formulas).map (ofFormula style) := by
  match formulas with
  | [] => rfl
  | [formula] => rfl
  | first :: second :: rest =>
      have hparts : ∀ formula ∈ first :: second :: rest,
          (formula.parts relation).map style.writePart ≠ [] := by
        intro formula hformula hnil
        have hpos := (h formula hformula).length_parts_pos relation
        rw [List.map_eq_nil_iff] at hnil
        simp [hnil] at hpos
      have htext := intercalate_flatMap (style.joiner relation)
        (fun formula : Formula String => (formula.parts relation).map style.writePart) hparts
      rw [Formula.join_cons_cons, Option.map_some, ofFormula, Style.write_junction,
        List.map_flatMap, htext, List.map_cons, List.map_cons, join_cons_cons]
      simp only [List.map_cons, List.map_map, Function.comp_def, within_ofFormula,
        Formula.relation?]

end Rendered

namespace Node

/-- The children of a group are rendered one by one. -/
theorem renderAll_eq_mapM (style : Style) (children : List Node) :
    renderAll style children = List.reduceOption <$> children.mapM (render style) := by
  refine Traversal.collect_eq_mapM (render style) (renderAll style) ?_ ?_ children
  · rw [renderAll]
    rfl
  · intro child rest
    rw [renderAll]

/-- The text of a node is the reading of its formula. -/
theorem render_eq (style : Style) (node : Node) :
    node.render style =
      Option.map (Rendered.ofFormula style) <$>
        node.formula?.mapM (Formula.traverse fun c => style.condition c.condition) := by
  refine walk_eq_read_formula? (render style) ?_ ?_
    (fun relation formulas => Rendered.join_map_ofFormula style relation) node
  · intro l
    rw [render, Condition.isUsable]
    cases h : l.condition.comparison? with
    | none => rfl
    | some comparison =>
        rcases Condition.comparison?_eq_some h with ⟨hcondition, _⟩
        cases htext : style.condition l.condition <;>
          simp [Except.map, Rendered.ofFormula, Formula.relation?, hcondition, htext]
  · intro id relation children
    rw [render, renderAll_eq_mapM]
    cases children.mapM (render style) <;> rfl

/-- The preview of a node is the reading of its formula, wrapped once more where the relation
outside differs. -/
theorem preview_eq (style : Style) (ambient : Option Relation) (node : Node) :
    node.preview style ambient =
      (fun written => (written.map (style.writeWithin ambient)).getD "") <$>
        node.formula?.mapM (Formula.traverse fun c => style.condition c.condition) := by
  rw [preview, render_eq]
  cases node.formula?.mapM (Formula.traverse fun c => style.condition c.condition) with
  | error e => rfl
  | ok written =>
      cases written with
      | none => rfl
      | some formula =>
          cases ambient with
          | none => rfl
          | some outer =>
              cases hrel : formula.relation? with
              | none =>
                  simp [Except.map, Rendered.ofFormula, Rendered.within, Style.writeWithin, hrel]
              | some inner =>
                  simp [Except.map, Rendered.ofFormula, Rendered.within, Style.writeWithin, hrel]

end Node

end FilterQuery
