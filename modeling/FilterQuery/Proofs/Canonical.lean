import FilterQuery.Proofs.Comparison
import FilterQuery.Proofs.Formula.Filter

/-!
# Canonical query documents

The search engine is sent documents of one narrow form.  A clause is an object with a single field:
one primitive clause of the operator table, the negation of a single one, or two clauses and more
that are joined by a relation, none of which is itself joined by the same relation.  The form is
stated for documents as data, so that it says what is sent and not how it was made.

Main results:

- `isPrimitive_of_primitive`: what a comparison asks for is a primitive clause of the table.
- `canonical_clauseOf`: an alternating formula of canonical clauses is read as a canonical one.
- `document_canonical`: every query document of a filter is canonical, or finds everything.
-/

namespace FilterQuery

open Number

/-! ## The form of documents -/

namespace Value

/-- A test that may also be negated: for an exact value, for words, for one of several values, or
for any value at all. -/
inductive IsNegatable : Value → Prop
  | term (field : String) (value : Value) (named : field ≠ "") :
      IsNegatable (.object [("term", .object [(field, value)])])
  | words (field : String) (value : Value) (named : field ≠ "") :
      IsNegatable (.object [("match", .object [(field, value)])])
  | terms (field : String) (values : List Value) (named : field ≠ "") :
      IsNegatable (.object [("terms", .object [(field, .list values)])])
  | present (field : String) (named : field ≠ "") :
      IsNegatable (.object [("exists", .object [("field", .text field)])])

/-- The bounds of a range: a lower one, an upper one, or both. -/
inductive AreBounds : List (String × Value) → Prop
  | lower (word : String) (limit : Value) (known : word = "gt" ∨ word = "gte") :
      AreBounds [(word, limit)]
  | upper (word : String) (limit : Value) (known : word = "lt" ∨ word = "lte") :
      AreBounds [(word, limit)]
  | both (below above : String) (least most : Value) (known : below = "gt" ∨ below = "gte")
      (known' : above = "lt" ∨ above = "lte") : AreBounds [(below, least), (above, most)]

/-- A primitive clause of the operator table. -/
inductive IsPrimitive : Value → Prop
  | negatable {test : Value} (h : IsNegatable test) : IsPrimitive test
  | range (field : String) (bounds : List (String × Value)) (named : field ≠ "")
      (given : AreBounds bounds) :
      IsPrimitive (.object [("range", .object [(field, .object bounds)])])
  | beginning (field : String) (value : Value) (named : field ≠ "") :
      IsPrimitive (.object [("prefix", .object [(field, value)])])
  | wildcard (field : String) (pattern : Value) (named : field ≠ "") :
      IsPrimitive (.object [("wildcard",
        .object [(field, .object [("value", pattern), ("case_insensitive", .bool true)])])])
  | queryString (field : String) (query : Value) (named : field ≠ "") :
      IsPrimitive (.object [("query_string",
        .object [("default_field", .text field), ("query", query)])])

/-- Whether a clause joins others by "and". -/
def IsMust (clause : Value) : Prop :=
  ∃ parts, clause = .object [("bool", .object [("must", parts)])]

/-- Whether a clause joins others by "or". -/
def IsShould (clause : Value) : Prop :=
  ∃ parts others, clause = .object [("bool", .object (("should", parts) :: others))]

/-- The clauses of query documents. -/
inductive Canonical : Value → Prop
  | primitive {test : Value} (h : IsPrimitive test) : Canonical test
  | negation {test : Value} (h : IsNegatable test) :
      Canonical (.object [("bool", .object [("must_not", .list [test])])])
  | must {parts : List Value} (two_le : 2 ≤ parts.length)
      (inside : ∀ part ∈ parts, Canonical part) (changes : ∀ part ∈ parts, ¬part.IsMust) :
      Canonical (.object [("bool", .object [("must", .list parts)])])
  | should {parts : List Value} (two_le : 2 ≤ parts.length)
      (inside : ∀ part ∈ parts, Canonical part) (changes : ∀ part ∈ parts, ¬part.IsShould) :
      Canonical (.object [("bool",
        .object [("should", .list parts), ("minimum_should_match", .int 1)])])

/-- Whether a clause joins others by a relation. -/
def IsJoinedBy : Relation → Value → Prop
  | .and => IsMust
  | .or => IsShould

/-- A test that may be negated joins nothing. -/
theorem IsNegatable.not_isJoinedBy {test : Value} (h : test.IsNegatable) (relation : Relation) :
    ¬test.IsJoinedBy relation := by
  cases relation <;> cases h <;> simp [IsJoinedBy, IsMust, IsShould]

/-- A primitive clause joins nothing. -/
theorem IsPrimitive.not_isJoinedBy {test : Value} (h : test.IsPrimitive) (relation : Relation) :
    ¬test.IsJoinedBy relation := by
  cases h with
  | negatable h => exact h.not_isJoinedBy relation
  | range | beginning | wildcard | queryString =>
      cases relation <;> simp [IsJoinedBy, IsMust, IsShould]

/-- The negation of a test joins nothing. -/
theorem not_isJoinedBy_negation (test : Value) (relation : Relation) :
    ¬(Value.object [("bool", .object [("must_not", .list [test])])]).IsJoinedBy relation := by
  cases relation <;> simp [IsJoinedBy, IsMust, IsShould]

end Value

/-- Clauses joined by one relation are not joined by the other. -/
theorem Relation.not_isJoinedBy_document {relation other : Relation} (h : relation ≠ other)
    (parts : List Value) : ¬(relation.document parts).IsJoinedBy other := by
  cases relation <;> cases other <;>
    simp_all [Relation.document, Value.single, Value.IsJoinedBy, Value.IsMust, Value.IsShould]

/-- Two canonical clauses and more, none of which is joined by the same relation, are joined to a
canonical clause. -/
theorem Relation.canonical_document {relation : Relation} {parts : List Value}
    (two_le : 2 ≤ parts.length) (inside : ∀ part ∈ parts, part.Canonical)
    (changes : ∀ part ∈ parts, ¬part.IsJoinedBy relation) :
    (relation.document parts).Canonical := by
  cases relation with
  | and => exact .must two_le inside changes
  | or => exact .should two_le inside changes

/-! ## The clauses of comparisons -/

/-- The bounds of a range with at least one bound are the bounds of a document. -/
theorem areBounds_of_isSome {lower upper : Option Bound}
    (h : lower.isSome = true ∨ upper.isSome = true) :
    Value.AreBounds ((lower.map (Bound.document .lower)).toList ++
      (upper.map (Bound.document .upper)).toList) := by
  have hlower : ∀ inclusive, Side.lower.keyword inclusive = "gt" ∨
      Side.lower.keyword inclusive = "gte" := by decide
  have hupper : ∀ inclusive, Side.upper.keyword inclusive = "lt" ∨
      Side.upper.keyword inclusive = "lte" := by decide
  cases lower with
  | none =>
      cases upper with
      | none => simp at h
      | some most => exact .upper _ _ (hupper most.inclusive)
  | some least =>
      cases upper with
      | none => exact .lower _ _ (hlower least.inclusive)
      | some most => exact .both _ _ _ _ (hlower least.inclusive) (hupper most.inclusive)

namespace Comparison

variable {comparison : Comparison} {p : Primitive}

/-- The test for equality may be negated. -/
theorem isNegatable_of_equality (hready : comparison.Ready)
    (h : comparison.condition.equality = .ok p) : p.document.IsNegatable := by
  unfold Condition.equality at h
  split at h
  · rcases Traversal.map_eq_ok_iff.mp h with ⟨value, _, rfl⟩
    exact .term _ value hready.named
  · rcases Except.ok.inj h with rfl
    exact .words _ _ hready.named

/-- The test for one of several values may be negated. -/
theorem isNegatable_of_membership (hready : comparison.Ready)
    (h : comparison.condition.membership = .ok p) : p.document.IsNegatable := by
  rcases Traversal.map_eq_ok_iff.mp h with ⟨values, _, rfl⟩
  exact .terms _ values hready.named

/-- A range has at least one bound. -/
theorem isPrimitive_of_between (hready : comparison.Ready)
    (hneed : comparison.operator.need = .bound)
    (h : comparison.condition.between = .ok p) : p.document.IsPrimitive := by
  rcases Traversal.bind_eq_ok_iff.mp h with ⟨lower, hlower, h⟩
  rcases Traversal.bind_eq_ok_iff.mp h with ⟨upper, hupper, h⟩
  rcases Except.ok.inj h with rfl
  have hsome : lower.isSome = true ∨ upper.isSome = true := by
    rw [Condition.isSome_of_coerceBound hlower, Condition.isSome_of_coerceBound hupper]
    simpa using hready.bounded hneed
  exact .range _ _ hready.named (areBounds_of_isSome hsome)

/-- The test for a beginning is one for the beginning itself or for a pattern. -/
theorem isPrimitive_of_beginning (hready : comparison.Ready)
    (h : comparison.condition.beginning = .ok p) : p.document.IsPrimitive := by
  unfold Condition.beginning at h
  split at h
  · rcases Except.ok.inj h with rfl
    exact .beginning _ _ hready.named
  · rcases Traversal.map_eq_ok_iff.mp h with ⟨text, _, rfl⟩
    exact .wildcard _ _ hready.named

/-- What a comparison asks for is a primitive clause of the table, and one that may be negated if
the comparison is negated. -/
theorem isPrimitive_of_primitive (hready : comparison.Ready) (h : comparison.primitive = .ok p) :
    p.document.IsPrimitive ∧
      (comparison.operator.negated = true → p.document.IsNegatable) := by
  obtain ⟨c, op⟩ := comparison
  cases op with
  | equal | notEqual =>
      have hnegatable := isNegatable_of_equality hready h
      exact ⟨.negatable hnegatable, fun _ => hnegatable⟩
  | oneOf | noneOf =>
      have hnegatable := isNegatable_of_membership hready h
      exact ⟨.negatable hnegatable, fun _ => hnegatable⟩
  | present | absent =>
      rcases Except.ok.inj h with rfl
      have hnegatable := Value.IsNegatable.present c.field hready.named
      exact ⟨.negatable hnegatable, fun _ => hnegatable⟩
  | range => exact ⟨isPrimitive_of_between hready rfl h, by simp [Operator.negated]⟩
  | startsWith => exact ⟨isPrimitive_of_beginning hready h, by simp [Operator.negated]⟩
  | wildcard =>
      rcases Except.ok.inj h with rfl
      exact ⟨.wildcard _ _ hready.named, by simp [Operator.negated]⟩
  | queryString =>
      rcases Except.ok.inj h with rfl
      exact ⟨.queryString _ _ hready.named, by simp [Operator.negated]⟩

/-- The clause of a comparison is canonical, and joins nothing. -/
theorem canonical_of_clause {clause : Clause} (hready : comparison.Ready)
    (h : comparison.clause = .ok clause) :
    clause.document.Canonical ∧ ∀ relation, ¬clause.document.IsJoinedBy relation := by
  rw [clause_eq_map_primitive] at h
  rcases Traversal.map_eq_ok_iff.mp h with ⟨p, hp, rfl⟩
  have hprimitive := isPrimitive_of_primitive hready hp
  cases hnegated : comparison.operator.negated with
  | false =>
      rw [if_neg (by simp), Clause.document]
      exact ⟨.primitive hprimitive.1, hprimitive.1.not_isJoinedBy⟩
  | true =>
      rw [if_pos rfl, Clause.document]
      exact ⟨.negation (hprimitive.2 hnegated), Value.not_isJoinedBy_negation _⟩

end Comparison

/-! ## Formulas -/

namespace Formula

/-- An alternating formula of canonical clauses that join nothing is read as a canonical clause,
joined by the relation of the formula if by any. -/
theorem canonical_clauseOf {formula : Formula Clause} (halternating : formula.Alternating)
    (hatoms : ∀ clause ∈ formula.atoms, clause.document.Canonical ∧
      ∀ relation, ¬clause.document.IsJoinedBy relation) :
    formula.clauseOf.document.Canonical ∧ ∀ relation, formula.relation? ≠ some relation →
      ¬formula.clauseOf.document.IsJoinedBy relation := by
  induction formula with
  | atom clause =>
      rw [clauseOf_atom]
      have hclause := hatoms clause (List.mem_singleton_self clause)
      exact ⟨hclause.1, fun relation _ => hclause.2 relation⟩
  | junction relation parts ih =>
      rcases halternating with _ | ⟨two_le, changes, inside⟩
      rw [clauseOf_junction, Clause.document, Clause.documents_eq_map, List.map_map]
      have hparts : ∀ part ∈ parts, part.clauseOf.document.Canonical ∧
          ¬part.clauseOf.document.IsJoinedBy relation := by
        intro part hpart
        have hpart' := ih part hpart (inside part hpart) fun clause hclause => by
          apply hatoms
          rw [atoms_junction]
          exact List.mem_flatMap.mpr ⟨part, hpart, hclause⟩
        exact ⟨hpart'.1, hpart'.2 relation (changes part hpart)⟩
      constructor
      · apply Relation.canonical_document
        · rwa [List.length_map]
        · intro document hdocument
          rcases List.mem_map.mp hdocument with ⟨part, hpart, rfl⟩
          exact (hparts part hpart).1
        · intro document hdocument
          rcases List.mem_map.mp hdocument with ⟨part, hpart, rfl⟩
          exact (hparts part hpart).2
      · intro other hother
        exact Relation.not_isJoinedBy_document (fun heq => hother (congrArg some heq)) _

end Formula

/-! ## Documents of filters -/

namespace Filter

/-- The clause of a filter is canonical. -/
theorem canonical_of_clause? {default : Relation} {filter : Filter} {clause : Clause}
    (h : filter.clause? default = .ok (some clause)) : clause.document.Canonical := by
  rcases exists_formula_of_clause? h with ⟨formula, rfl, halternating, hatoms⟩
  refine (Formula.canonical_clauseOf halternating fun clause hclause => ?_).1
  rcases hatoms clause hclause with ⟨c, _, comparison, hcomparison, hclause⟩
  exact Comparison.canonical_of_clause (Condition.ready_of_comparison? hcomparison).2 hclause

/-- The query document of a filter finds everything, or its query is a canonical clause. -/
theorem document_canonical {default : Relation} {filter : Filter} {document : Value}
    (h : filter.document default = .ok document) :
    document = .object [("query", .object [("match_all", .object [])])] ∨
      ∃ clause : Value, document = .object [("query", clause)] ∧ clause.Canonical := by
  rcases Traversal.map_eq_ok_iff.mp h with ⟨found, hfound, rfl⟩
  cases found with
  | none => exact Or.inl rfl
  | some clause => exact Or.inr ⟨clause.document, rfl, canonical_of_clause? hfound⟩

/-- A group inside a group of the same relation is taken apart, an empty one is dropped, and a
negation next to them stays what it is. -/
theorem canonical_document_of_groups_in_groups :
    let exists? (field : String) : Value :=
      .object [("exists", .object [("field", .text field)])]
    let leaf (field : String) (op : Operator) : Node :=
      .leaf (.plain { id := field, field, operator := some op })
    let clause : Value := .object [("bool", .object [("must", .list
      [exists? "a", .object [("bool", .object [("must_not", .list [exists? "b"])])],
        .object [("bool", .object
          [("should", .list [exists? "c", exists? "d"]), ("minimum_should_match", .int 1)])]])])]
    (tree (some (.group "1" .and [leaf "a" .present, .group "2" .or [],
        .group "3" .and [leaf "b" .absent,
          .group "4" .or [leaf "c" .present, leaf "d" .present]]]))).document .and =
      .ok (.object [("query", clause)]) ∧ clause.Canonical := by
  intro exists? leaf clause
  have hdocument : (tree (some (.group "1" .and [leaf "a" .present, .group "2" .or [],
      .group "3" .and [leaf "b" .absent,
        .group "4" .or [leaf "c" .present, leaf "d" .present]]]))).document .and =
      .ok (.object [("query", clause)]) := rfl
  rcases document_canonical hdocument with hall | ⟨found, hfound, hcanonical⟩
  · simp [clause] at hall
  · obtain rfl : clause = found := by simpa using hfound
    exact ⟨hdocument, hcanonical⟩

end Filter

end FilterQuery
