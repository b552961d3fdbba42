import FilterQuery.Proofs.Numeral

/-!
# The values that a query carries

Equality, membership and ranges compare with values that were filled in.  Their clauses carry the
same values in the same places, each of them coerced on its own: on an exact field it is the one
that was filled in, and elsewhere a text that is written as a number gives way to that number.

Main results:

- `Primitive.Alike`: two tests of one kind, with values that are related one by one.
- `Comparison.alike_of_primitive`: the test of a comparison is the one that was filled in, coerced
  value by value.
- `Condition.clause_carries_coerced`: what that means for the values of a clause.
-/

namespace FilterQuery

open Number

/-! ## Tests of one kind -/

namespace Primitive

/-- The values that a test for values compares with. -/
def values : Primitive → List Value
  | term _ value | matching _ value => [value]
  | terms _ values => values
  | range _ lower upper => (lower.toList ++ upper.toList).map Bound.limit
  | _ => []

/-- Whether two ends of a range are both open, or closed by bounds of one kind with related
limits. -/
inductive AlikeEnds (related : Value → Value → Prop) : Option Bound → Option Bound → Prop
  | absent : AlikeEnds related none none
  | present (inclusive : Bool) {given carried : Value} (h : related given carried) :
      AlikeEnds related (some ⟨inclusive, given⟩) (some ⟨inclusive, carried⟩)

/-- Whether two tests for values are of one kind, on one field, and their values related one by one,
each to the one in its place. -/
inductive Alike (related : Value → Value → Prop) : Primitive → Primitive → Prop
  | term (field : String) {given carried : Value} (h : related given carried) :
      Alike related (.term field given) (.term field carried)
  | matching (field : String) {given carried : Value} (h : related given carried) :
      Alike related (.matching field given) (.matching field carried)
  | terms (field : String) {given carried : List Value} (h : List.Forall₂ related given carried) :
      Alike related (.terms field given) (.terms field carried)
  | range (field : String) {lower upper least most : Option Bound}
      (hlower : AlikeEnds related lower least) (hupper : AlikeEnds related upper most) :
      Alike related (.range field lower upper) (.range field least most)

variable {related other : Value → Value → Prop}

/-- Ends that are alike by one relation are alike by any that follows from it. -/
theorem AlikeEnds.mono (h : ∀ given carried, related given carried → other given carried)
    {given carried : Option Bound} (hends : AlikeEnds related given carried) :
    AlikeEnds other given carried := by
  cases hends with
  | absent => exact .absent
  | present inclusive hlimit => exact .present inclusive (h _ _ hlimit)

/-- Tests that are alike by one relation are alike by any that follows from it. -/
theorem Alike.mono (h : ∀ given carried, related given carried → other given carried)
    {given carried : Primitive} (halike : Alike related given carried) :
    Alike other given carried := by
  cases halike with
  | term field hvalue => exact .term field (h _ _ hvalue)
  | matching field hvalue => exact .matching field (h _ _ hvalue)
  | terms field hvalues => exact .terms field (hvalues.imp h)
  | range field hlower hupper => exact .range field (hlower.mono h) (hupper.mono h)

/-- Ends with equal limits are equal. -/
theorem AlikeEnds.eq {given carried : Option Bound} (h : AlikeEnds Eq given carried) :
    given = carried := by
  cases h with
  | absent => rfl
  | present inclusive hlimit => rw [hlimit]

/-- Tests for equal values are equal. -/
theorem Alike.eq {given carried : Primitive} (h : Alike Eq given carried) : given = carried := by
  cases h with
  | term field hvalue => rw [hvalue]
  | matching field hvalue => rw [hvalue]
  | terms field hvalues =>
      rw [List.forall₂_eq_eq_eq] at hvalues
      rw [hvalues]
  | range field hlower hupper => rw [hlower.eq, hupper.eq]

/-- What is known of the limit of an end beside another one. -/
theorem AlikeEnds.forall_limit {p : Value → Prop} {given carried : Option Bound}
    (h : AlikeEnds (fun _ value => p value) given carried) :
    ∀ bound ∈ carried.toList, p bound.limit := by
  cases h with
  | absent => simp
  | present inclusive hlimit => simpa using hlimit

/-- What is known of every value beside another one. -/
theorem Alike.forall_values {p : Value → Prop} {given carried : Primitive}
    (h : Alike (fun _ value => p value) given carried) : ∀ value ∈ carried.values, p value := by
  cases h with
  | term field hvalue => simpa [values] using hvalue
  | matching field hvalue => simpa [values] using hvalue
  | terms field hvalues =>
      apply Traversal.forall_mem_of_forall₂ (hvalues.imp fun _ _ hvalue _ => hvalue)
      exact fun _ _ => trivial
  | range field hlower hupper =>
      simp only [values, List.forall_mem_map, List.forall_mem_append]
      exact ⟨hlower.forall_limit, hupper.forall_limit⟩

end Primitive

/-! ## The test that was filled in -/

/-- A bound, unless it was not filled in. -/
def Bound.given? (bound : Bound) : Option Bound :=
  if bound.limit.isBlank then none else some bound

namespace Condition

/-- The operators whose values are coerced. -/
def coercedOperators : List Operator :=
  [.equal, .notEqual, .oneOf, .noneOf, .range]

/-- The test that a condition asks for by one of these operators, with the values as they were
filled in. -/
def asGiven (c : Condition) : Operator → Primitive
  | .oneOf | .noneOf => .terms c.field (Coercion.asList c.value)
  | .range => .range c.field c.lower.given? c.upper.given?
  | _ =>
      if Field.isExact c.field || Field.isDate c.field || Coercion.isNumeric c.value then
        .term c.field c.value
      else .matching c.field c.value

/-- Whether one value is coerced to another one on a field. -/
def IsCoerced (field : String) (given carried : Value) : Prop :=
  Coercion.coerce field given = .ok carried

/-- A value is compared exactly on exact fields, on date fields and if it is a number. -/
theorem comparesExactly_iff (field : String) (value : Value) :
    comparesExactly field value = true ↔
      Field.isExact field = true ∨ Field.isDate field = true ∨ Coercion.isNumeric value = true := by
  rw [comparesExactly, Bool.or_eq_true, Bool.or_eq_true, or_assoc]

/-- Equality is a test for the coerced value or, if that is not compared exactly, a search for the
words of the value itself. -/
theorem equality_cases {c : Condition} {p : Primitive} (h : c.equality = .ok p) :
    (comparesExactly c.field c.value = true ∧
        ∃ carried, IsCoerced c.field c.value carried ∧ p = .term c.field carried) ∨
      comparesExactly c.field c.value = false ∧ Coercion.isNumeric c.value = false ∧
        p = .matching c.field c.value := by
  unfold equality at h
  by_cases hexactly : comparesExactly c.field c.value = true
  · rw [if_pos hexactly] at h
    obtain ⟨carried, hcarried, rfl⟩ := Traversal.map_eq_ok_iff.mp h
    exact .inl ⟨hexactly, carried, hcarried, rfl⟩
  · rw [if_neg hexactly] at h
    have hnumeric : Coercion.isNumeric c.value = false := by
      rw [comparesExactly_iff, not_or, not_or] at hexactly
      simpa using hexactly.2.2
    exact .inr ⟨by simpa using hexactly, hnumeric, (Except.ok.inj h).symm⟩

/-- A test for equality carries the value coerced. -/
theorem alike_of_equality {c : Condition} {p : Primitive} (h : c.equality = .ok p) {op : Operator}
    (hop : op = .equal ∨ op = .notEqual) :
    Primitive.Alike (IsCoerced c.field) (c.asGiven op) p := by
  have hgiven : c.asGiven op =
      if comparesExactly c.field c.value then .term c.field c.value
      else .matching c.field c.value := by
    rcases hop with rfl | rfl
    · rfl
    · rfl
  rw [hgiven]
  rcases equality_cases h with ⟨hexactly, carried, hcarried, rfl⟩ | ⟨hwords, hnumeric, rfl⟩
  · rw [if_pos hexactly]
    exact .term c.field hcarried
  · rw [if_neg (by simp [hwords])]
    exact .matching c.field (Coercion.coerce_of_not_isNumeric hnumeric)

/-- A test for membership carries every value coerced. -/
theorem alike_of_membership {c : Condition} {p : Primitive} (h : c.membership = .ok p)
    {op : Operator} (hop : op = .oneOf ∨ op = .noneOf) :
    Primitive.Alike (IsCoerced c.field) (c.asGiven op) p := by
  have hgiven : c.asGiven op = .terms c.field (Coercion.asList c.value) := by
    rcases hop with rfl | rfl
    · rfl
    · rfl
  rw [hgiven]
  obtain ⟨terms, hterms, rfl⟩ := Traversal.map_eq_ok_iff.mp h
  exact .terms c.field (Traversal.forall₂_of_mapM_eq_ok hterms)

/-- An end of a range carries its limit coerced. -/
theorem alikeEnds_of_coerceBound {field : String} {bound : Bound} {result : Option Bound}
    (h : coerceBound field bound = .ok result) :
    Primitive.AlikeEnds (IsCoerced field) bound.given? result := by
  unfold coerceBound at h
  unfold Bound.given?
  by_cases hblank : bound.limit.isBlank = true
  · rw [if_pos hblank] at h ⊢
    obtain rfl := Except.ok.inj h
    exact .absent
  · rw [if_neg hblank] at h ⊢
    obtain ⟨limit, hlimit, rfl⟩ := Traversal.map_eq_ok_iff.mp h
    exact .present bound.inclusive hlimit

/-- A test for a range carries both limits coerced. -/
theorem alike_of_between {c : Condition} {p : Primitive} (h : c.between = .ok p) :
    Primitive.Alike (IsCoerced c.field) (c.asGiven .range) p := by
  obtain ⟨lower, hlower, h⟩ := Traversal.bind_eq_ok_iff.mp h
  obtain ⟨upper, hupper, h⟩ := Traversal.bind_eq_ok_iff.mp h
  obtain rfl := Except.ok.inj h
  exact .range c.field (alikeEnds_of_coerceBound hlower) (alikeEnds_of_coerceBound hupper)

/-- The test of a condition whose values are coerced is the one that was filled in, coerced value by
value. -/
theorem alike_of_primitive {c : Condition} {op : Operator} (hop : op ∈ coercedOperators)
    {p : Primitive} (h : Comparison.primitive ⟨c, op⟩ = .ok p) :
    Primitive.Alike (IsCoerced c.field) (c.asGiven op) p := by
  cases op with
  | equal => exact alike_of_equality h (.inl rfl)
  | notEqual => exact alike_of_equality h (.inr rfl)
  | oneOf => exact alike_of_membership h (.inl rfl)
  | noneOf => exact alike_of_membership h (.inr rfl)
  | range => exact alike_of_between h
  | present | absent | startsWith | wildcard | queryString => contradiction

/-! ## What a clause carries -/

/-- Whether a value is read as another one: as itself or, if it is written as a number, as that
number. -/
def IsReadAs (given carried : Value) : Prop :=
  carried = given ∨ ∃ s, ∃ numeral : Coercion.Numeral,
    given = .text s ∧ numeral.IsWrittenIn s ∧ carried = numeral.number

/-- What coercion gives on any field is what the value is read as. -/
theorem IsCoerced.isReadAs {field : String} {given carried : Value}
    (h : IsCoerced field given carried) : IsReadAs given carried := by
  by_cases hexact : Field.isExact field = true
  · rw [IsCoerced, Coercion.coerce_of_isExact hexact] at h
    exact .inl (Except.ok.inj h).symm
  · rcases Coercion.coerce_cases (by simpa using hexact) h with hnumber | ⟨hsame, _⟩
    · exact .inr hnumber
    · exact .inl hsame

/-- On an exact field coercion gives the value itself. -/
theorem IsCoerced.eq {field : String} (hexact : Field.isExact field = true) {given carried : Value}
    (h : IsCoerced field given carried) : given = carried := by
  rw [IsCoerced, Coercion.coerce_of_isExact hexact] at h
  exact Except.ok.inj h

/-- On any other field it leaves no text that is written as a number. -/
theorem IsCoerced.not_isNumeric {field : String} (hfield : Field.isExact field = false)
    {given carried : Value} (h : IsCoerced field given carried) :
    ∀ s, carried = .text s → Coercion.isNumeric carried = false := by
  rintro s rfl
  rcases Coercion.coerce_cases hfield h with ⟨_, numeral, _, _, hnumber⟩ | ⟨rfl, hother⟩
  · exact absurd hnumber.symm (numeral.number_ne_text s)
  · exact hother s rfl

/-- What is known of the values in the test of a condition whose values are coerced. -/
structure Carries (c : Condition) (op : Operator) (p : Primitive) : Prop where
  /-- On a field that is not exact no text is left that is written as a number. -/
  text : Field.isExact c.field = false →
    ∀ s, .text s ∈ p.values → Coercion.isNumeric (.text s) = false
  /-- No number is searched for by its words. -/
  words : ∀ value, p = .matching c.field value → Coercion.isNumeric value = false
  /-- In the place of every value that was filled in stands what it is read as. -/
  alike : Primitive.Alike IsReadAs (c.asGiven op) p
  /-- On an exact field that is the value itself. -/
  exact : Field.isExact c.field = true → p = c.asGiven op
  /-- Equality is a test for the exact value on exact fields, on date fields and for numbers. -/
  term : op = .equal ∨ op = .notEqual →
    ((∃ value, p = .term c.field value) ↔
      Field.isExact c.field = true ∨ Field.isDate c.field = true ∨
        Coercion.isNumeric c.value = true)
  /-- Elsewhere equality is a search for the words of the value. -/
  matching : op = .equal ∨ op = .notEqual →
    (∀ value, p ≠ .term c.field value) → p = .matching c.field c.value

/-- The test of a condition whose values are coerced carries them so. -/
theorem carries_of_primitive {c : Condition} {op : Operator} (hop : op ∈ coercedOperators)
    {p : Primitive} (h : Comparison.primitive ⟨c, op⟩ = .ok p) : Carries c op p := by
  have halike := alike_of_primitive hop h
  have hequality : op = .equal ∨ op = .notEqual → c.equality = .ok p := by
    rintro (rfl | rfl)
    · exact h
    · exact h
  constructor
  · intro hfield s hs
    have hvalues : Primitive.Alike
        (fun _ carried => ∀ s, carried = .text s → Coercion.isNumeric carried = false)
        (c.asGiven op) p := halike.mono fun _ _ hcoerced => hcoerced.not_isNumeric hfield
    exact hvalues.forall_values (.text s) hs s rfl
  · rintro value rfl
    -- Membership and ranges are no search for words.
    have hop : op = .equal ∨ op = .notEqual := by
      cases op with
      | equal => exact .inl rfl
      | notEqual => exact .inr rfl
      | oneOf | noneOf | range => cases halike
      | _ => contradiction
    rcases equality_cases (hequality hop) with ⟨_, carried, _, hp⟩ | ⟨_, hnumeric, hp⟩
    · contradiction
    · obtain ⟨-, rfl⟩ := Primitive.matching.inj hp
      exact hnumeric
  · exact halike.mono fun _ _ hcoerced => hcoerced.isReadAs
  · intro hexact
    exact (halike.mono fun _ _ hcoerced => hcoerced.eq hexact).eq.symm
  · intro hop
    rw [← comparesExactly_iff]
    rcases equality_cases (hequality hop) with ⟨hexactly, carried, _, rfl⟩ | ⟨hwords, _, rfl⟩
    · exact iff_of_true ⟨carried, rfl⟩ hexactly
    · exact iff_of_false (by simp) (by simp [hwords])
  · intro hop hterm
    rcases equality_cases (hequality hop) with ⟨_, carried, _, hp⟩ | ⟨_, _, hp⟩
    · exact absurd hp (hterm carried)
    · exact hp

/-- A condition that can be used and whose values are coerced has a clause as long as the integers
in its values are in the limit.  The clause is a test, or the negation of one, that carries the
values coerced: numbers instead of the texts that are written as numbers, except on exact fields,
and all else as it was filled in. -/
theorem clause_carries_coerced {c : Condition} {op : Operator} (hop : c.operator = some op)
    (hcoerced : op ∈ coercedOperators) (husable : c.isUsable = true) :
    ((∃ clause, c.clause? = .ok (some clause)) ↔ c.compilesInLimit = true) ∧
      ∀ clause, c.clause? = .ok (some clause) →
        ∃ p, clause = (if op.negated then Clause.negation else Clause.primitive) p ∧
          Carries c op p := by
  constructor
  · exact exists_clause?_iff husable
  · intro clause h
    obtain ⟨_, hclause⟩ := clause?_of_isUsable hop husable
    rw [hclause] at h
    obtain ⟨p, hp, hsome⟩ := Traversal.map_eq_ok_iff.mp h
    exact ⟨p, (Option.some.inj hsome).symm, carries_of_primitive hcoerced hp⟩

/-- Of a padded number, a word and a number, the first is carried as a number. -/
theorem clause_carries_coerced_mixed :
    let c : Condition :=
      { id := "c", field := "bytes", operator := some .noneOf
        value := .list [.text " 07 ", .text "x", .int 3] }
    c.isUsable = true ∧ ∃ terms, c.clause? = .ok (some (.negation (.terms "bytes" terms))) ∧
      (∀ s, .text s ∈ terms → Coercion.isNumeric (.text s) = false) ∧
      List.Forall₂ IsReadAs [.text " 07 ", .text "x", .int 3] terms := by
  intro c
  have husable : c.isUsable = true := by decide +kernel
  have hinexact : Field.isExact "bytes" = false := by decide
  have hop : c.operator = some .noneOf := rfl
  obtain ⟨hexists, hcarries⟩ := clause_carries_coerced hop (by decide) husable
  obtain ⟨clause, hclause⟩ := hexists.mpr (by decide +kernel)
  obtain ⟨p, rfl, hp⟩ := hcarries clause hclause
  have hgiven : c.asGiven .noneOf = .terms "bytes" [.text " 07 ", .text "x", .int 3] := rfl
  have halike := hp.alike
  rw [hgiven] at halike
  cases halike with
  | terms field hterms => exact ⟨husable, _, hclause, hp.text hinexact, hterms⟩

end Condition

end FilterQuery
