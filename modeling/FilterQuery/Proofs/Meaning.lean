import FilterQuery.Proofs.Formula.Query

/-!
# The meaning of filters

A filter means something without a detour through queries: a usable condition is what its clause
says, a negated one is the opposite of what the clause of the plain operator says, and a group
combines what is left of its children.  The query of a tree says the same, although groups are
unwrapped and taken apart on the way.

Main results:

- `holds_document`: a query document holds when its clause does.
- `meaning?_eq`: the direct meaning of a condition is what its clause says.
- `compile_keeps_meaning`: the query of a tree means what the tree means.
-/

namespace FilterQuery

open Number

/-! ## Reading query documents -/

namespace Value

mutual

/-- Whether a query document holds, given which documents of primitive clauses hold.  What stands
under `must` has to hold as a whole, one of what stands under `should`, where one has to match, and
nothing of what stands under `must_not`. -/
def holds (truth : Value → Bool) : Value → Bool
  | .object [("bool", .object [("must", .list parts)])] => allHold truth parts
  | .object [("bool", .object [("should", .list parts), ("minimum_should_match", .int 1)])] =>
      anyHolds truth parts
  | .object [("bool", .object [("must_not", .list parts)])] => !anyHolds truth parts
  | clause => truth clause

/-- Whether every one of several query documents holds. -/
def allHold (truth : Value → Bool) : List Value → Bool
  | [] => true
  | part :: rest => part.holds truth && allHold truth rest

/-- Whether at least one of several query documents holds. -/
def anyHolds (truth : Value → Bool) : List Value → Bool
  | [] => false
  | part :: rest => part.holds truth || anyHolds truth rest

end

end Value

/-- A primitive clause is not taken for one that joins others. -/
theorem Primitive.holds_document (truth : Value → Bool) (p : Primitive) :
    p.document.holds truth = truth p.document := by
  cases p <;> simp [document, Value.single, Value.holds]

namespace Clause

mutual

/-- A query document holds when its clause does. -/
theorem holds_document (truth : Value → Bool) :
    ∀ clause : Clause, clause.document.holds truth = clause.holds fun p => truth p.document
  | primitive p => by
      rw [document, Primitive.holds_document, holds]
  | negation p => by
      rw [document, holds]
      simp [Value.single, Value.holds, Value.anyHolds, Primitive.holds_document]
  | junction .and parts => by
      rw [document, holds, ← allHold_documents truth parts]
      simp [Relation.document, Value.single, Value.holds]
  | junction .or parts => by
      rw [document, holds, ← anyHolds_documents truth parts]
      simp [Relation.document, Value.single, Value.holds]

/-- Several query documents hold when all of their clauses do. -/
theorem allHold_documents (truth : Value → Bool) :
    ∀ parts : List Clause,
      Value.allHold truth (documents parts) = allHold (fun p => truth p.document) parts
  | [] => rfl
  | part :: rest => by
      rw [documents, Value.allHold, allHold, holds_document truth part,
        allHold_documents truth rest]

/-- One of several query documents holds when one of their clauses does. -/
theorem anyHolds_documents (truth : Value → Bool) :
    ∀ parts : List Clause,
      Value.anyHolds truth (documents parts) = anyHolds (fun p => truth p.document) parts
  | [] => rfl
  | part :: rest => by
      rw [documents, Value.anyHolds, anyHolds, holds_document truth part,
        anyHolds_documents truth rest]

end

end Clause

/-! ## The direct meaning -/

/-- The operator whose opposite a negated operator asks for. -/
def Operator.opposite? : Operator → Option Operator
  | notEqual => some equal
  | noneOf => some oneOf
  | absent => some present
  | _ => none

/-- What a relation makes of the truth of several parts. -/
def Relation.combine : Relation → List Bool → Bool
  | .and, values => values.all id
  | .or, values => values.any id

/-- What a relation makes of the truth of several parts, if there are any. -/
def Relation.combine? (relation : Relation) : List Bool → Option Bool
  | [] => none
  | values => some (relation.combine values)

/-- What a condition means, if it can be used: its clause, or the opposite of what the clause of
the plain operator says about the same field and value. -/
def Condition.meaning? (truth : Value → Bool) (c : Condition) : Except DigitLimit (Option Bool) :=
  match c.operator.bind Operator.opposite? with
  | some plain =>
      Option.map (fun clause => !truth clause.document)
        <$> { c with operator := some plain }.clause?
  | none => Option.map (fun clause => truth clause.document) <$> c.clause?

namespace Node

mutual

/-- What a node means, if anything in it can be used. -/
def meaning? (truth : Value → Bool) : Node → Except DigitLimit (Option Bool)
  | leaf l => l.condition.meaning? truth
  | group _ relation children => relation.combine? <$> meanings truth children

/-- What several nodes mean, without those in which nothing can be used. -/
def meanings (truth : Value → Bool) : List Node → Except DigitLimit (List Bool)
  | [] => pure []
  | child :: rest => do
      let first ← child.meaning? truth
      let others ← meanings truth rest
      return first.toList ++ others

end

end Node

/-! ## Conditions mean what their clauses say -/

/-- A negated operator needs what the plain one needs. -/
theorem Operator.need_of_opposite? {op plain : Operator} (h : op.opposite? = some plain) :
    plain.need = op.need := by
  cases op <;> simp [opposite?] at h <;> subst h <;> rfl

/-- The operators with an opposite are the negated ones. -/
theorem Operator.negated_eq_isSome_opposite? (op : Operator) :
    op.negated = op.opposite?.isSome := by
  cases op <;> rfl

/-- The plain operator is not negated itself. -/
theorem Operator.negated_of_opposite? {op plain : Operator} (h : op.opposite? = some plain) :
    plain.negated = false := by
  cases op <;> simp [opposite?] at h <;> subst h <;> rfl

/-- A negated comparison and the plain one ask about the same primitive clause. -/
theorem Comparison.primitive_of_opposite? {op plain : Operator} (c : Condition)
    (h : op.opposite? = some plain) :
    Comparison.primitive ⟨{ c with operator := some plain }, plain⟩ =
      Comparison.primitive ⟨c, op⟩ := by
  cases op <;> simp [Operator.opposite?] at h <;> subst h <;> rfl

namespace Condition

/-- A negated condition can be used exactly when the plain one can. -/
theorem comparison?_of_opposite {c : Condition} {op plain : Operator} (hop : c.operator = some op)
    (hplain : op.opposite? = some plain) :
    { c with operator := some plain }.comparison? =
      c.comparison?.map fun _ => ⟨{ c with operator := some plain }, plain⟩ := by
  have hneed := Operator.need_of_opposite? hplain
  by_cases hfield : c.field.isEmpty = true
  · simp [comparison?, check, hfield, Except.toOption]
  · simp only [comparison?, check, hop, hfield, hneed]
    cases op.need with
    | nothing => rfl
    | value => cases c.value.isBlank <;> rfl
    | bound => cases c.lower.limit.isBlank && c.upper.limit.isBlank <;> rfl

/-- The direct meaning of a condition is what its clause says. -/
theorem meaning?_eq (truth : Value → Bool) (c : Condition) :
    c.meaning? truth = c.comparison?.mapM fun comparison =>
      (fun clause => clause.document.holds truth) <$> comparison.clause := by
  cases hop : c.operator.bind Operator.opposite? with
  | some plain =>
      rcases Option.bind_eq_some_iff.mp hop with ⟨op, hc, hplain⟩
      simp only [meaning?, hop, clause?, comparison?_of_opposite hc hplain]
      cases hcomparison : c.comparison? with
      | none => rfl
      | some comparison =>
          rcases comparison?_eq_some hcomparison with ⟨rfl, hown⟩
          obtain rfl : comparison.operator = op := by simpa [hown] using hc
          simp only [Option.map_some, Option.mapM_some, Comparison.clause_eq_map_primitive,
            Comparison.primitive_of_opposite? _ hplain, Operator.negated_of_opposite? hplain,
            Operator.negated_eq_isSome_opposite? comparison.operator, hplain]
          cases comparison.primitive <;>
            simp [Except.map, Clause.holds_document, Clause.holds, Clause.document]
  | none =>
      simp only [meaning?, hop, clause?]
      cases hcomparison : c.comparison? with
      | none => rfl
      | some comparison =>
          rcases comparison?_eq_some hcomparison with ⟨rfl, hown⟩
          have hplain : comparison.operator.opposite? = none := by simpa [hown] using hop
          simp only [Option.mapM_some, Comparison.clause_eq_map_primitive,
            Operator.negated_eq_isSome_opposite? comparison.operator, hplain]
          cases comparison.primitive <;>
            simp [Except.map, Clause.holds_document, Clause.holds, Clause.document]

end Condition

/-! ## Trees mean what their clauses say -/

namespace Relation

/-- A single part is combined to its own truth. -/
@[simp]
theorem combine_singleton (relation : Relation) (value : Bool) :
    relation.combine [value] = value := by
  cases relation <;> simp [combine]

/-- Parts may be combined in groups first. -/
theorem combine_flatMap {α : Type} (relation : Relation) (g : α → List Bool) (items : List α) :
    relation.combine (items.flatMap g) =
      relation.combine (items.map fun item => relation.combine (g item)) := by
  cases relation <;> simp [combine]

end Relation

/-- Joined clauses hold as their relation makes it of the truth of the parts. -/
theorem Clause.holds_junction (truth : Primitive → Bool) (relation : Relation)
    (parts : List Clause) :
    (junction relation parts).holds truth = relation.combine (parts.map (holds truth)) := by
  cases relation with
  | and => simp [holds_junction_and, Relation.combine]
  | or => simp [holds_junction_or, Relation.combine]

namespace Formula

/-- Taking a formula apart for a group of a relation keeps what it says in that group. -/
theorem combine_parts (truth : Primitive → Bool) (relation : Relation)
    (formula : Formula Clause) :
    relation.combine ((formula.parts relation).map fun part => part.clauseOf.holds truth) =
      formula.clauseOf.holds truth := by
  cases formula with
  | atom clause => simp
  | junction inner parts =>
      by_cases hrel : inner = relation
      · subst hrel
        rw [parts_junction_self, clauseOf_junction, Clause.holds_junction, List.map_map]
        rfl
      · rw [parts_junction_of_ne hrel, List.map_singleton, Relation.combine_singleton]

/-- Joining formulas keeps what the relation makes of them. -/
theorem combine?_join (truth : Primitive → Bool) (relation : Relation)
    (formulas : List (Formula Clause)) :
    relation.combine? (formulas.map fun part => part.clauseOf.holds truth) =
      (join relation formulas).map fun formula => formula.clauseOf.holds truth := by
  match formulas with
  | [] => rfl
  | [formula] => exact congrArg some (Relation.combine_singleton relation _)
  | first :: second :: rest =>
      have hparts : ∀ formula : Formula Clause, formula.clauseOf.holds truth =
          relation.combine ((formula.parts relation).map fun part => part.clauseOf.holds truth) :=
        fun formula => (combine_parts truth relation formula).symm
      rw [join_cons_cons, Option.map_some, clauseOf_junction, Clause.holds_junction, List.map_map,
        Function.comp_def, List.map_flatMap, Relation.combine_flatMap]
      simp only [← hparts]
      rfl

end Formula

namespace Node

/-- The children of a group mean something one by one. -/
theorem meanings_eq_mapM (truth : Value → Bool) (children : List Node) :
    meanings truth children = List.reduceOption <$> children.mapM (meaning? truth) := by
  refine Traversal.collect_eq_mapM (meaning? truth) (meanings truth) ?_ ?_ children
  · rw [meanings]
  · intro child rest
    rw [meanings]

/-- The meaning of a tree is what its formula says. -/
theorem meaning?_eq (truth : Value → Bool) (node : Node) :
    node.meaning? truth =
      Option.map (fun formula => formula.clauseOf.holds fun p => truth p.document)
        <$> node.formula?.mapM (Formula.traverse Comparison.clause) := by
  refine walk_eq_read_formula? (meaning? truth) ?_ ?_
    (fun relation formulas _ => Formula.combine?_join _ relation formulas) node
  · intro l
    rw [meaning?, Condition.meaning?_eq]
    simp only [Clause.holds_document, Formula.clauseOf_atom]
  · intro id relation children
    rw [meaning?, meanings_eq_mapM]
    simp

/-- The query of a tree means what the tree means, under every assignment of truth to the primitive
clauses.  There is no query exactly when no condition can be used. -/
theorem compile_keeps_meaning (truth : Value → Bool) (node : Node) :
    Option.map (fun clause => clause.document.holds truth) <$> node.compile.value =
        node.meaning? truth ∧
      (node.compile.value = .ok none ↔ ∀ c ∈ node.conditions, c.isUsable = false) := by
  constructor
  · rw [value_compile, meaning?_eq]
    simp only [Clause.holds_document, Functor.map_map, Option.map_map, Function.comp_def]
  · rw [value_compile, ← formula?_eq_none_iff]
    cases node.formula? with
    | none => simp [pure, Except.pure]
    | some formula =>
        cases h : formula.traverse Comparison.clause <;> simp [h]

end Node

end FilterQuery
