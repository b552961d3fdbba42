import FilterQuery.Condition.Clause
import FilterQuery.Proofs.Traversal

/-!
# What a comparison can rely on

A condition becomes a comparison only if it names a field and an operator, and if that operator has
what it needs.  The clause of a comparison relies on this: a range, for instance, always has a
bound.

Main results:

- `checked_check`: what a check can find, and when.
- `ready_of_comparison?`: a comparison has a field, its own operator and what that operator needs.
- `clause?_of_isUsable`: the clause of a condition that can be used, by its operator.
- `isSome_of_coerceBound`: a bound is left out of a range exactly when it was not filled in.
-/

namespace FilterQuery

open Number

/-- What is known of a comparison: it has a field, the operator is its own, and whatever the
operator needs was filled in. -/
structure Comparison.Ready (comparison : Comparison) : Prop where
  named : comparison.condition.field ≠ ""
  stated : comparison.condition.operator = some comparison.operator
  valued : comparison.operator.need = .value → comparison.condition.value.isBlank = false
  bounded : comparison.operator.need = .bound →
    comparison.condition.lower.limit.isBlank = false ∨
      comparison.condition.upper.limit.isBlank = false

namespace Condition

/-- What a check of a condition finds: the first thing that is missing, or a comparison with all
that it needs. -/
inductive Checked (c : Condition) : Except Notice Comparison → Prop
  | unnamed (field : c.field = "") : Checked c (.error (.missingField c.id))
  | unstated (field : c.field ≠ "") (operator : c.operator = none) :
      Checked c (.error (.missingOperator c.id c.field))
  | valueless {op : Operator} (field : c.field ≠ "") (operator : c.operator = some op)
      (need : op.need = .value) (value : c.value.isBlank = true) :
      Checked c (.error (.missingValue c.id c.field op))
  | boundless {op : Operator} (field : c.field ≠ "") (operator : c.operator = some op)
      (need : op.need = .bound) (lower : c.lower.limit.isBlank = true)
      (upper : c.upper.limit.isBlank = true) :
      Checked c (.error (.missingRangeBound c.id c.field))
  | ready {op : Operator} (h : Comparison.Ready ⟨c, op⟩) : Checked c (.ok ⟨c, op⟩)

/-- A check finds one of these. -/
theorem checked_check (c : Condition) : c.Checked c.check := by
  unfold check
  by_cases hfield : c.field.isEmpty = true
  · rw [if_pos hfield]
    exact .unnamed (by simpa using hfield)
  · have hnamed : c.field ≠ "" := by simpa using hfield
    rw [if_neg hfield]
    cases hop : c.operator with
    | none => exact .unstated hnamed hop
    | some op =>
        cases hneed : op.need with
        | nothing =>
            simp only [hneed]
            exact .ready ⟨hnamed, hop, by simp [hneed], by simp [hneed]⟩
        | value =>
            by_cases hblank : c.value.isBlank = true
            · simp only [hneed, hblank, if_true]
              exact .valueless hnamed hop hneed hblank
            · simp only [hneed, hblank]
              exact .ready ⟨hnamed, hop, fun _ => by simpa using hblank, by simp [hneed]⟩
        | bound =>
            by_cases hblank : (c.lower.limit.isBlank && c.upper.limit.isBlank) = true
            · simp only [hneed, hblank, if_true]
              rw [Bool.and_eq_true] at hblank
              exact .boundless hnamed hop hneed hblank.1 hblank.2
            · simp only [hneed, hblank]
              have hgiven : c.lower.limit.isBlank = false ∨ c.upper.limit.isBlank = false := by
                rwa [← Bool.and_eq_false_iff, ← Bool.not_eq_true]
              exact .ready ⟨hnamed, hop, by simp [hneed], fun _ => hgiven⟩

/-- A comparison has a field, its own operator and what that operator needs. -/
theorem ready_of_comparison? {c : Condition} {comparison : Comparison}
    (h : c.comparison? = some comparison) : comparison.condition = c ∧ comparison.Ready := by
  have hchecked := c.checked_check
  rw [comparison?] at h
  generalize c.check = found at h hchecked
  cases hchecked with
  | ready hready =>
      rcases Option.some.inj h with rfl
      exact ⟨rfl, hready⟩
  | _ => contradiction

/-- A condition that can be used is a comparison by its operator, and its clause is the test of that
comparison or, for an operator that negates another one, the negation of that test. -/
theorem clause?_of_isUsable {c : Condition} {op : Operator} (hop : c.operator = some op)
    (husable : c.isUsable = true) :
    Comparison.Ready ⟨c, op⟩ ∧
      c.clause? = (fun p => some ((if op.negated then Clause.negation else Clause.primitive) p)) <$>
        Comparison.primitive ⟨c, op⟩ := by
  obtain ⟨comparison, hcomparison⟩ := Option.isSome_iff_exists.mp husable
  obtain ⟨rfl, hready⟩ := ready_of_comparison? hcomparison
  obtain rfl : comparison.operator = op := Option.some.inj (hready.stated.symm.trans hop)
  refine ⟨hready, ?_⟩
  rw [clause?, hcomparison]
  change some <$> comparison.clause = _
  rw [Comparison.clause_eq_map_primitive, Functor.map_map]

/-- A bound is left out of a range exactly when it was not filled in. -/
theorem isSome_of_coerceBound {field : String} {bound : Bound} {result : Option Bound}
    (h : coerceBound field bound = .ok result) : result.isSome = !bound.limit.isBlank := by
  unfold coerceBound at h
  cases hblank : bound.limit.isBlank with
  | true =>
      rw [if_pos hblank] at h
      rcases Except.ok.inj h with rfl
      rfl
  | false =>
      rw [if_neg (by simp [hblank])] at h
      rcases Traversal.map_eq_ok_iff.mp h with ⟨limit, _, rfl⟩
      rfl

end Condition

end FilterQuery
