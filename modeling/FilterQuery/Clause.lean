import FilterQuery.Condition

/-!
# Query clauses

The search engine understands primitive clauses, each of which tests one field, the negation of a
primitive clause, and clauses that are joined by a relation.  In a query document the parts of an
"and" stand under `must` and those of an "or" under `should`, where at least one has to match.

Main results:

- `holds_junction_and`, `holds_junction_or`: a joined clause holds when all of its parts hold, or
  one of them.
-/

namespace FilterQuery

/-- A test of one field. -/
inductive Primitive where
  /-- The field has exactly this value. -/
  | term (field : String) (value : Value)
  /-- The text of the field matches the words of this value. -/
  | matching (field : String) (value : Value)
  /-- The field has one of these values. -/
  | terms (field : String) (values : List Value)
  /-- The field has a value at all. -/
  | present (field : String)
  /-- The value of the field lies between the bounds that are given. -/
  | range (field : String) (lower upper : Option Bound)
  /-- The field starts with this value. -/
  | startsWith (field : String) (value : Value)
  /-- The field fits this pattern, without regard to case. -/
  | wildcard (field : String) (pattern : Value)
  /-- The field fits this query text. -/
  | queryString (field : String) (query : Value)

/-- What is asked of the search engine. -/
inductive Clause where
  | primitive (p : Primitive)
  | negation (p : Primitive)
  | junction (relation : Relation) (parts : List Clause)

namespace Clause

/-- The parts of a clause that are joined by a relation, unless it is another kind of clause. -/
def parts? (relation : Relation) : Clause → Option (List Clause)
  | junction inner parts => if inner = relation then some parts else none
  | _ => none

/-! ## Meaning -/

mutual

/-- Whether a clause holds, given which primitive clauses hold. -/
def holds (truth : Primitive → Bool) : Clause → Bool
  | primitive p => truth p
  | negation p => !truth p
  | junction .and parts => allHold truth parts
  | junction .or parts => anyHolds truth parts

/-- Whether every one of several clauses holds. -/
def allHold (truth : Primitive → Bool) : List Clause → Bool
  | [] => true
  | part :: rest => part.holds truth && allHold truth rest

/-- Whether at least one of several clauses holds. -/
def anyHolds (truth : Primitive → Bool) : List Clause → Bool
  | [] => false
  | part :: rest => part.holds truth || anyHolds truth rest

end

/-- Clauses joined by "and" hold when all of them do. -/
theorem holds_junction_and (truth : Primitive → Bool) (parts : List Clause) :
    (junction .and parts).holds truth = parts.all (holds truth) := by
  rw [holds]
  induction parts with
  | nil => rfl
  | cons part rest ih => simp [allHold, ih]

/-- Clauses joined by "or" hold when one of them does. -/
theorem holds_junction_or (truth : Primitive → Bool) (parts : List Clause) :
    (junction .or parts).holds truth = parts.any (holds truth) := by
  rw [holds]
  induction parts with
  | nil => rfl
  | cons part rest ih => simp [anyHolds, ih]

end Clause

/-! ## Query documents -/

/-- An object with one field. -/
def Value.single (name : String) (value : Value) : Value :=
  .object [(name, value)]

/-- A bound as a field of an object of bounds. -/
def Bound.document (side : Side) (bound : Bound) : String × Value :=
  (side.keyword bound.inclusive, bound.limit)

/-- A pattern that is compared without regard to case. -/
def patternDocument (pattern : Value) : Value :=
  .object [("value", pattern), ("case_insensitive", .bool true)]

/-- A primitive clause in a query document. -/
def Primitive.document : Primitive → Value
  | term field value => .single "term" (.single field value)
  | matching field value => .single "match" (.single field value)
  | terms field values => .single "terms" (.single field (.list values))
  | present field => .single "exists" (.single "field" (.text field))
  | range field lower upper =>
      let bounds := (lower.map (Bound.document .lower)).toList ++
        (upper.map (Bound.document .upper)).toList
      .single "range" (.single field (.object bounds))
  | startsWith field value => .single "prefix" (.single field value)
  | wildcard field pattern => .single "wildcard" (.single field (patternDocument pattern))
  | queryString field query =>
      .single "query_string" (.object [("default_field", .text field), ("query", query)])

/-- Joined clauses in a query document. -/
def Relation.document (parts : List Value) : Relation → Value
  | .and => .single "bool" (.single "must" (.list parts))
  | .or => .single "bool" (.object [("should", .list parts), ("minimum_should_match", .int 1)])

namespace Clause

mutual

/-- A clause in a query document. -/
def document : Clause → Value
  | primitive p => p.document
  | negation p => .single "bool" (.single "must_not" (.list [p.document]))
  | junction relation parts => relation.document (documents parts)

/-- Several clauses in a query document. -/
def documents : List Clause → List Value
  | [] => []
  | part :: rest => part.document :: documents rest

end

/-- Joined clauses stand in a query document one by one. -/
theorem documents_eq_map (parts : List Clause) : documents parts = parts.map document := by
  induction parts with
  | nil => rfl
  | cons part rest ih => simp [documents, ih]

end Clause

/-- The query document that finds everything. -/
def matchAll : Value :=
  .single "query" (.single "match_all" (.object []))

/-- The query document for a clause; without one, everything is found. -/
def queryDocument : Option Clause → Value
  | some clause => .single "query" clause.document
  | none => matchAll

end FilterQuery
