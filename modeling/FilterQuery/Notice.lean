import FilterQuery.Condition

/-!
# Notices

A condition that cannot be used is left out with a notice instead of stopping the work, and so
is a lookup that fails.  A notice is one of a few causes; its code, its message and the things it
names follow from the cause.

Main results:

- `Condition.notice?_eq_none_iff`: a condition has a notice exactly when it cannot be used.
- `Condition.comparison?_eq_some`: a check hands on the condition and its own operator.
-/

namespace FilterQuery

/-- Why something was left out. -/
inductive Notice where
  | missingField (node : String)
  | missingOperator (node field : String)
  | missingValue (node field : String) (operator : Operator)
  | missingRangeBound (node field : String)
  | contextIgnored (field : String)
  | lookupFailed (field : String)
deriving DecidableEq, Repr

namespace Notice

/-- The code that programs look at. -/
def code : Notice → String
  | missingField _ => "missing_field"
  | missingOperator _ _ => "missing_operator"
  | missingValue _ _ _ => "missing_value"
  | missingRangeBound _ _ => "missing_range_bound"
  | contextIgnored _ => "context_ignored"
  | lookupFailed _ => "lookup_failed"

/-- The message that people read. -/
def message : Notice → String
  | missingField _ => "Filter condition has no field"
  | missingOperator _ field => "Filter condition on '" ++ field ++ "' has no recognised operator"
  | missingValue _ _ op => "Operator '" ++ op.name ++ "' requires a value"
  | missingRangeBound _ _ => "Range filter requires at least one bound"
  | contextIgnored _ => "Context filter could not be parsed"
  | lookupFailed field => "Could not load values for " ++ field

/-- The condition that a notice is about. -/
def node? : Notice → Option String
  | missingField node | missingOperator node _ | missingValue node _ _
  | missingRangeBound node _ => some node
  | contextIgnored _ | lookupFailed _ => none

/-- The field that a notice names. -/
def field? : Notice → Option String
  | missingField _ => none
  | missingOperator _ field | missingValue _ field _ | missingRangeBound _ field
  | contextIgnored field | lookupFailed field => some field

/-- Whether a notice is about a condition that was not begun yet; those are left out silently. -/
def isSilent : Notice → Bool
  | missingField _ | missingOperator _ _ => true
  | _ => false

end Notice

/-! ## Checking conditions -/

/-- A condition that is ready to be compared, with its operator. -/
structure Comparison where
  condition : Condition
  operator : Operator

namespace Condition

/-- Finds out whether a condition has a field, an operator and what the operator needs. -/
def check (c : Condition) : Except Notice Comparison :=
  if c.field.isEmpty then .error (.missingField c.id)
  else
    match c.operator with
    | none => .error (.missingOperator c.id c.field)
    | some op =>
        match op.need with
        | .value =>
            if c.value.isBlank then .error (.missingValue c.id c.field op) else .ok ⟨c, op⟩
        | .bound =>
            if c.lower.limit.isBlank && c.upper.limit.isBlank then
              .error (.missingRangeBound c.id c.field)
            else .ok ⟨c, op⟩
        | .nothing => .ok ⟨c, op⟩

/-- The comparison that a condition makes, if it can be used. -/
def comparison? (c : Condition) : Option Comparison :=
  c.check.toOption

/-- Whether a condition can be used. -/
def isUsable (c : Condition) : Bool :=
  c.comparison?.isSome

/-- The reason why a condition cannot be used, if there is one. -/
def notice? (c : Condition) : Option Notice :=
  match c.check with
  | .ok _ => none
  | .error notice => some notice

/-- The notice with which a condition is reported as left out. -/
def warning? (c : Condition) : Option Notice :=
  c.notice?.filter fun notice => !notice.isSilent

/-- A condition has a notice exactly when it cannot be used. -/
theorem notice?_eq_none_iff (c : Condition) : c.notice? = none ↔ c.isUsable = true := by
  cases h : c.check <;> simp [notice?, isUsable, comparison?, h, Except.toOption]

/-- The comparison that a condition makes is one of its own, by its own operator. -/
theorem comparison?_eq_some {c : Condition} {comparison : Comparison}
    (h : c.comparison? = some comparison) :
    comparison.condition = c ∧ c.operator = some comparison.operator := by
  have hcheck : c.check = .ok comparison := by
    cases hc : c.check <;> simp_all [comparison?, Except.toOption]
  unfold check at hcheck
  split at hcheck
  · contradiction
  · split at hcheck
    · contradiction
    · next op hop =>
        split at hcheck
        all_goals first
          | (split at hcheck
             · contradiction
             · cases hcheck; exact ⟨rfl, hop⟩)
          | (cases hcheck; exact ⟨rfl, hop⟩)

end Condition

end FilterQuery
