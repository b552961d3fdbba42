import FilterQuery.Proofs.Comparison
import FilterQuery.Proofs.Formula.Filter
import Mathlib.Algebra.Order.Ring.Int

/-!
# Where the work on a filter stops

Nothing that a filter may hold stops the work on it, with one exception: an integer with too many
digits.  A query fails at it where a text is taken as an integer and where an integer is made part
of a pattern; a preview fails at it where an integer is shown.  Conditions that cannot be used are
left out before anything of the kind is tried.

Main results:

- `exists_displayInner_iff`: a value has a text exactly when every integer in it can be written.
- `exists_coerce_iff`: a value is coerced unless it is written as an integer that is too long.
- `exists_clause_iff`, `exists_label_iff`: what that means for the clause and the label of a
  condition.
- `answers_iff_in_limit`: a filter is compiled, reported, submitted and shown exactly when the
  integers in its usable conditions are in the limit.
-/

namespace FilterQuery

open Number

/-! ## Values that can be written -/

namespace Value

mutual

/-- Whether every integer in a value can be written. -/
def isWritable : Value → Bool
  | int n => n.natAbs < Nat.pow 10 maxDigits
  | list items => areWritable items
  | object fields => areFieldsWritable fields
  | _ => true

/-- Whether every integer in the items of a list can be written. -/
def areWritable : List Value → Bool
  | [] => true
  | item :: rest => item.isWritable && areWritable rest

/-- Whether every integer in the fields of an object can be written. -/
def areFieldsWritable : List (String × Value) → Bool
  | [] => true
  | (_, value) :: rest => value.isWritable && areFieldsWritable rest

end

/-- An integer can be written if it is small enough. -/
theorem isWritable_int_iff (n : Int) :
    (int n).isWritable = true ↔ n.natAbs < Nat.pow 10 maxDigits := by
  rw [isWritable, decide_eq_true_eq]

/-- The items of a list are looked at one by one. -/
theorem areWritable_eq_all (items : List Value) : areWritable items = items.all isWritable := by
  induction items with
  | nil => rfl
  | cons item rest ih => rw [areWritable, List.all_cons, ih]

/-- An integer has a decimal text exactly when it is not too long. -/
theorem exists_digitsText_iff (n : Int) :
    (∃ text, digitsText n = .ok text) ↔ n.natAbs < Nat.pow 10 maxDigits := by
  unfold digitsText
  constructor
  · rintro ⟨text, h⟩
    by_contra hlong
    rw [if_neg hlong] at h
    contradiction
  · intro h
    exact ⟨integerText n, if_pos h⟩

mutual

/-- A value has a text inside another one exactly when every integer in it can be written. -/
theorem exists_displayInner_iff :
    ∀ value : Value, (∃ text, value.displayInner = .ok text) ↔ value.isWritable = true
  | null | bool _ | float _ | text _ | bytes _ => by simp [displayInner, isWritable]
  | int n => by rw [displayInner, isWritable_int_iff, exists_digitsText_iff]
  | list items => by
      rw [displayInner, isWritable, ← exists_displayItems_iff items]
      exact Traversal.exists_map_iff
  | object fields => by
      rw [displayInner, isWritable, ← exists_displayFields_iff fields]
      exact Traversal.exists_map_iff

/-- The items of a list have texts exactly when every integer in them can be written. -/
theorem exists_displayItems_iff :
    ∀ items : List Value, (∃ texts, displayItems items = .ok texts) ↔ areWritable items = true
  | [] => by simp [displayItems, areWritable]
  | item :: rest => by
      rw [displayItems, areWritable, Bool.and_eq_true, ← exists_displayInner_iff item,
        ← exists_displayItems_iff rest]
      exact Traversal.exists_bind₂_iff

/-- The fields of an object have texts exactly when every integer in them can be written. -/
theorem exists_displayFields_iff : ∀ fields : List (String × Value),
    (∃ texts, displayFields fields = .ok texts) ↔ areFieldsWritable fields = true
  | [] => by simp [displayFields, areFieldsWritable]
  | (name, value) :: rest => by
      rw [displayFields, areFieldsWritable, Bool.and_eq_true, ← exists_displayInner_iff value,
        ← exists_displayFields_iff rest]
      exact Traversal.exists_bind₂_iff

end

/-- A value has a text exactly when every integer in it can be written. -/
theorem exists_display_iff (value : Value) :
    (∃ text, value.display = .ok text) ↔ value.isWritable = true := by
  cases value with
  | text s => simp [isWritable]
  | _ => exact exists_displayInner_iff _

/-- A power of ten is at least as large as one with a smaller exponent. -/
theorem le_natAbs_pow {small large : Nat} (h : small ≤ large) :
    Nat.pow 10 small ≤ (10 ^ large : Int).natAbs := by
  rw [Int.natAbs_pow]
  exact Nat.pow_le_pow_right (Nat.succ_pos 9) h

/-- A power of ten with more digits than an integer may have cannot be written. -/
theorem not_isWritable_pow {digits : Nat} (h : maxDigits ≤ digits) :
    (int (10 ^ digits)).isWritable = false := by
  rw [isWritable]
  exact decide_eq_false (Nat.not_lt.mpr (le_natAbs_pow h))

/-- A text of a repeated character is not blank unless the character is. -/
theorem isBlank_replicate {c : Char} (h : Text.isBlankChar c = false) (n : Nat) :
    (text (String.ofList (List.replicate (n + 1) c))).isBlank = false := by
  simp [isBlank, Text.isBlank, h]

mutual

/-- A blank value holds no integer at all. -/
theorem isWritable_of_isBlank : ∀ value : Value, value.isBlank = true → value.isWritable = true
  | null, _ | text _, _ => rfl
  | list items, h => by
      rw [isBlank] at h
      rw [isWritable]
      exact areWritable_of_areBlank items h

/-- Blank values hold no integer at all. -/
theorem areWritable_of_areBlank :
    ∀ items : List Value, areBlank items = true → areWritable items = true
  | [], _ => rfl
  | item :: rest, h => by
      rw [areBlank, Bool.and_eq_true] at h
      rw [areWritable, Bool.and_eq_true]
      exact ⟨isWritable_of_isBlank item h.1, areWritable_of_areBlank rest h.2⟩

end

end Value

/-! ## Values that can be coerced -/

namespace Coercion

/-- Whether a number is written as an integer with too many digits. -/
def Numeral.isLong (numeral : Numeral) : Bool :=
  numeral.decimals.isNone && maxDigits < numeral.whole.length

/-- Whether a value on a field is in the limit: on an exact field every value is, and elsewhere
every value that is not written as an integer with too many digits. -/
def isInLimit (field : String) : Value → Bool
  | .text s => Field.isExact field || !(numeralOfText? s).any Numeral.isLong
  | _ => true

/-- A digit that is repeated is written as an integer. -/
theorem numeralOfText?_replicate {digit : Char} (hblank : Text.isBlankChar digit = false)
    (hsign : digit ≠ '-') (hdigit : Text.isDigit digit = true) (n : Nat) :
    numeralOfText? (String.ofList (List.replicate (n + 1) digit)) =
      some ⟨false, List.replicate (n + 1) digit, none⟩ := by
  have htrim : Text.trimChars (List.replicate (n + 1) digit) = List.replicate (n + 1) digit := by
    simp [Text.trimChars, Text.trimBy, hblank]
  have hunsigned : ((List.replicate (n + 1) digit).head? == some '-') = false := by
    simpa [List.replicate_succ] using hsign
  rw [numeralOfText?, String.toList_ofList, htrim, numeral?, hunsigned]
  simp [hdigit, List.replicate_succ]

/-- Outside of exact fields a digit must not be repeated too often. -/
theorem isInLimit_replicate {field : String} (hfield : Field.isExact field = false) {n : Nat}
    (hlong : maxDigits ≤ n) :
    isInLimit field (.text (String.ofList (List.replicate (n + 1) '1'))) = false := by
  have hnumeral : numeralOfText? (String.ofList (List.replicate (n + 1) '1')) =
      some ⟨false, List.replicate (n + 1) '1', none⟩ :=
    numeralOfText?_replicate (by decide) (by decide) (by decide) n
  have hcount : maxDigits < n + 1 := by omega
  simp only [isInLimit, hfield, hnumeral, Option.any_some, Numeral.isLong]
  simpa using hcount

/-- A number as it is written has a value unless it is an integer with too many digits. -/
theorem exists_value_iff (numeral : Numeral) :
    (∃ value, numeral.value = .ok value) ↔ numeral.isLong = false := by
  unfold Numeral.value Numeral.isLong
  cases numeral.decimals with
  | some decimals => simp
  | none =>
      have hmap : ∀ result : Except DigitLimit Int,
          (∃ value, result.map Value.int = .ok value) ↔ ∃ n, result = .ok n :=
        fun _ => Traversal.exists_map_iff
      rw [hmap, readInteger]
      by_cases h : numeral.whole.length ≤ maxDigits
      · simp [h]
      · simp only [if_neg h]
        simp
        omega

/-- A value is coerced unless it is written as an integer with too many digits. -/
theorem exists_coerce_iff (field : String) (value : Value) :
    (∃ result, coerce field value = .ok result) ↔ isInLimit field value = true := by
  unfold coerce
  by_cases hexact : Field.isExact field = true
  · cases value <;> simp [isInLimit, hexact]
  · cases value with
    | text s =>
        cases hnumeral : numeralOfText? s with
        | none => simp [isInLimit, hexact, hnumeral]
        | some numeral =>
            have hvalue := exists_value_iff numeral
            simpa [isInLimit, hexact, hnumeral] using hvalue
    | _ => simp [isInLimit, hexact]

/-- Padding is not written as a number. -/
theorem numeralOfText?_of_isBlank {s : String} (h : Text.isBlank s = true) :
    numeralOfText? s = none := by
  have htrim : Text.trimChars s.toList = [] := Text.trimChars_eq_nil_iff.mpr h
  rw [numeralOfText?, htrim]
  rfl

/-- Padding is not written as an integer. -/
theorem isInLimit_of_isBlank {value : Value} (h : value.isBlank = true) (field : String) :
    isInLimit field value = true := by
  cases value with
  | text s => simp [isInLimit, numeralOfText?_of_isBlank h]
  | _ => rfl

/-- A value is shown exactly when every integer in it can be written. -/
theorem exists_displayGiven_iff (value : Value) :
    (∃ text, displayGiven value = .ok text) ↔ value.isWritable = true := by
  cases value with
  | list items =>
      have hmap : (∃ text, displayGiven (.list items) = .ok text) ↔
          ∃ texts, items.mapM Value.display = .ok texts := Traversal.exists_map_iff
      rw [hmap, Traversal.exists_mapM_iff, Value.isWritable, Value.areWritable_eq_all,
        List.all_eq_true]
      exact forall₂_congr fun item _ => item.exists_display_iff
  | null => simp [displayGiven, Value.isUnset, Value.isWritable]
  | text s =>
      by_cases hempty : s.isEmpty = true <;>
        simp [displayGiven, Value.isUnset, Value.isWritable, hempty]
  | bool _ | int _ | float _ | bytes _ | object _ =>
      simp only [displayGiven, Value.isUnset, Bool.false_eq_true, if_false]
      exact Value.exists_display_iff _

end Coercion

/-! ## Conditions -/

namespace Condition

/-- Whether the clause of a condition is in the limit. -/
def compilesInLimit (c : Condition) : Bool :=
  match c.operator with
  | some .equal | some .notEqual => Coercion.isInLimit c.field c.value
  | some .oneOf | some .noneOf => (Coercion.asList c.value).all (Coercion.isInLimit c.field)
  | some .range =>
      Coercion.isInLimit c.field c.lower.limit && Coercion.isInLimit c.field c.upper.limit
  | some .startsWith => Field.isExact c.field || c.value.isWritable
  | _ => true

/-- Whether the label of a condition is in the limit. -/
def showsInLimit (c : Condition) : Bool :=
  match c.operator with
  | some .present | some .absent => true
  | some .range => c.lower.limit.isWritable && c.upper.limit.isWritable
  | _ => c.value.isWritable

/-- Equality can be tested exactly when the value can be coerced. -/
theorem exists_equality_iff (c : Condition) :
    (∃ p, c.equality = .ok p) ↔ Coercion.isInLimit c.field c.value = true := by
  unfold equality
  by_cases hexactly : comparesExactly c.field c.value = true
  · rw [if_pos hexactly, ← Coercion.exists_coerce_iff]
    exact Traversal.exists_map_iff
  · have hnumeric : Coercion.isNumeric c.value = false := by
      cases h : Coercion.isNumeric c.value with
      | false => rfl
      | true => simp [comparesExactly, h] at hexactly
    rw [if_neg hexactly]
    refine iff_of_true ⟨_, rfl⟩ ?_
    -- A value that is compared word by word is no number, and so none that is too long.
    cases hvalue : c.value with
    | text s =>
        have hnone : Coercion.numeralOfText? s = none := by
          simpa [Coercion.isNumeric, hvalue] using hnumeric
        simp [Coercion.isInLimit, hnone]
    | _ => rfl

/-- Membership can be tested exactly when all values can be coerced. -/
theorem exists_membership_iff (c : Condition) :
    (∃ p, c.membership = .ok p) ↔
      (Coercion.asList c.value).all (Coercion.isInLimit c.field) = true := by
  have hmap : (∃ p, c.membership = .ok p) ↔
      ∃ values, (Coercion.asList c.value).mapM (Coercion.coerce c.field) = .ok values :=
    Traversal.exists_map_iff
  rw [hmap, Traversal.exists_mapM_iff, List.all_eq_true]
  exact forall₂_congr fun value _ => Coercion.exists_coerce_iff c.field value

/-- A bound can be carried exactly when its limit can be coerced. -/
theorem exists_coerceBound_iff (field : String) (bound : Bound) :
    (∃ result, coerceBound field bound = .ok result) ↔
      Coercion.isInLimit field bound.limit = true := by
  unfold coerceBound
  by_cases hblank : bound.limit.isBlank = true
  · rw [if_pos hblank]
    exact iff_of_true ⟨none, rfl⟩ (Coercion.isInLimit_of_isBlank hblank field)
  · rw [if_neg hblank, ← Coercion.exists_coerce_iff]
    exact Traversal.exists_map_iff

/-- A range can be tested exactly when both limits can be coerced. -/
theorem exists_between_iff (c : Condition) :
    (∃ p, c.between = .ok p) ↔ (Coercion.isInLimit c.field c.lower.limit &&
      Coercion.isInLimit c.field c.upper.limit) = true := by
  rw [Bool.and_eq_true, ← exists_coerceBound_iff, ← exists_coerceBound_iff]
  exact Traversal.exists_bind₂_iff

/-- A beginning can be tested exactly on an exact field, or when the value has a text. -/
theorem exists_beginning_iff (c : Condition) :
    (∃ p, c.beginning = .ok p) ↔ (Field.isExact c.field || c.value.isWritable) = true := by
  unfold beginning
  by_cases hexact : Field.isExact c.field = true
  · rw [if_pos hexact, hexact, Bool.true_or]
    exact iff_of_true ⟨_, rfl⟩ rfl
  · have hinexact : Field.isExact c.field = false := by simpa using hexact
    rw [if_neg hexact, hinexact, Bool.false_or, ← Value.exists_display_iff]
    exact Traversal.exists_map_iff

end Condition

/-- A comparison has a clause exactly when its condition is in the limit. -/
theorem Comparison.exists_clause_iff {comparison : Comparison} (hready : comparison.Ready) :
    (∃ clause, comparison.clause = .ok clause) ↔
      comparison.condition.compilesInLimit = true := by
  rw [clause_eq_map_primitive, Traversal.exists_map_iff, Condition.compilesInLimit, hready.stated]
  obtain ⟨c, op⟩ := comparison
  cases op with
  | equal | notEqual => exact c.exists_equality_iff
  | oneOf | noneOf => exact c.exists_membership_iff
  | range => exact c.exists_between_iff
  | startsWith => exact c.exists_beginning_iff
  | present | absent | wildcard | queryString => exact iff_of_true ⟨_, rfl⟩ rfl

namespace Condition

/-- A condition that can be used has a clause exactly when it is in the limit. -/
theorem exists_clause?_iff {c : Condition} (husable : c.isUsable = true) :
    (∃ clause, c.clause? = .ok (some clause)) ↔ c.compilesInLimit = true := by
  obtain ⟨comparison, hcomparison⟩ := Option.isSome_iff_exists.mp husable
  obtain ⟨rfl, hready⟩ := ready_of_comparison? hcomparison
  rw [← Comparison.exists_clause_iff hready, clause?, hcomparison]
  change (∃ clause, some <$> comparison.clause = .ok (some clause)) ↔ _
  simp only [Traversal.map_eq_ok_iff, Option.some.injEq, exists_eq_right]

/-- A bound can be shown exactly when its limit can be written. -/
theorem exists_boundLabel_iff (side : Side) (bound : Bound) :
    (∃ text, bound.label? side = .ok text) ↔ bound.limit.isWritable = true := by
  unfold Bound.label?
  by_cases hblank : bound.limit.isBlank = true
  · rw [if_pos hblank]
    exact iff_of_true ⟨none, rfl⟩ (Value.isWritable_of_isBlank _ hblank)
  · rw [if_neg hblank, ← Value.exists_display_iff]
    exact Traversal.exists_map_iff

/-- What a condition compares with can be shown exactly when it is in the limit. -/
theorem exists_comparedWith_iff (c : Condition) :
    (∃ text, c.comparedWith = .ok text) ↔ c.showsInLimit = true := by
  have hquoted : ∀ op, (∃ text, comparedWith.quoted c op = .ok text) ↔
      c.value.isWritable = true := by
    intro op
    rw [← Coercion.exists_displayGiven_iff]
    exact Traversal.exists_map_iff
  unfold comparedWith showsInLimit
  cases c.operator with
  | none => exact Coercion.exists_displayGiven_iff c.value
  | some op =>
      cases op with
      | present | absent => exact iff_of_true ⟨_, rfl⟩ rfl
      | range =>
          rw [Bool.and_eq_true, ← exists_boundLabel_iff .lower, ← exists_boundLabel_iff .upper]
          exact Traversal.exists_bind₂_iff
      | startsWith | wildcard | queryString => exact hquoted _
      | equal | notEqual | oneOf | noneOf => exact Coercion.exists_displayGiven_iff c.value

/-- A condition has a label exactly when it is in the limit. -/
theorem exists_label_iff (c : Condition) :
    (∃ text, c.label = .ok text) ↔ c.showsInLimit = true := by
  rw [← exists_comparedWith_iff]
  exact Traversal.exists_map_iff

end Condition

/-- In either style a condition has a text exactly when it has a label. -/
theorem Style.exists_condition_iff {style : Style} (h : style = plain ∨ style = markup)
    (c : Condition) : (∃ text, style.condition c = .ok text) ↔ c.showsInLimit = true := by
  rw [← Condition.exists_label_iff]
  rcases h with rfl | rfl
  · exact Traversal.exists_map_iff
  · exact Traversal.exists_map_iff

/-! ## Filters -/

namespace Filter

/-- Whether the query of a filter is in the limit. -/
def CompilesInLimit (filter : Filter) : Prop :=
  ∀ c ∈ filter.conditions, c.isUsable = true → c.compilesInLimit = true

/-- Whether the previews of a filter are in the limit. -/
def ShowsInLimit (filter : Filter) : Prop :=
  ∀ c ∈ filter.conditions, c.isUsable = true → c.showsInLimit = true

/-- A filter has a query exactly when it is in the limit. -/
theorem exists_clause?_iff_inLimit (default : Relation) (filter : Filter) :
    (∃ clause, filter.clause? default = .ok clause) ↔ filter.CompilesInLimit := by
  rw [exists_clause?_iff]
  refine forall₂_congr fun c hc => ?_
  cases hcomparison : c.comparison? with
  | none => simp [Condition.isUsable, hcomparison]
  | some comparison =>
      rcases Condition.ready_of_comparison? hcomparison with ⟨rfl, hready⟩
      have hclause := Comparison.exists_clause_iff hready
      simpa [Condition.isUsable, hcomparison] using hclause

/-- A filter has a query document exactly when it is in the limit. -/
theorem exists_document_iff (default : Relation) (filter : Filter) :
    (∃ document, filter.document default = .ok document) ↔ filter.CompilesInLimit := by
  rw [← exists_clause?_iff_inLimit default]
  exact Traversal.exists_map_iff

/-- A filter has a report exactly when it is in the limit. -/
theorem exists_report_iff (default : Relation) (filter : Filter) :
    (∃ outcome, filter.report default = .ok outcome) ↔ filter.CompilesInLimit := by
  rw [← exists_clause?_iff_inLimit default]
  have hreport : (∃ outcome, filter.report default = .ok outcome) ↔
      ∃ result, (filter.compile default).run = .ok result := Traversal.exists_map_iff
  have hclause : (∃ clause, filter.clause? default = .ok clause) ↔
      ∃ result, (filter.compile default).run = .ok result := Traversal.exists_map_iff
  rw [hreport, hclause]

/-- A filter can be submitted, or has nothing to submit, exactly when it is in the limit. -/
theorem exists_submit_iff (default : Relation) (label : Option String) (filter : Filter) :
    (∃ submission, filter.submit default label = .ok submission) ↔ filter.CompilesInLimit := by
  rw [← exists_document_iff default, ← document_usable? default, submit]
  cases filter.usable? with
  | none => exact iff_of_true ⟨none, rfl⟩ ⟨matchAll, rfl⟩
  | some kept => exact Traversal.exists_map_iff

/-- A filter has a preview in either style exactly when it is in the limit. -/
theorem exists_preview_iff_inLimit {style : Style} (h : style = .plain ∨ style = .markup)
    (default : Relation) (ambient : Option Relation) (filter : Filter) :
    (∃ text, filter.preview style default ambient = .ok text) ↔ filter.ShowsInLimit := by
  rw [exists_preview_iff]
  exact forall₃_congr fun c _ _ => Style.exists_condition_iff h c

/-- A filter is compiled, reported and submitted exactly when the integers in its usable conditions
are in the limit for queries, and shown in either style exactly when they are in the limit for
texts.  Conditions that cannot be used never stop it: the document is that of what can be used, and
the one that finds everything where nothing can. -/
theorem answers_iff_in_limit (default : Relation) (filter : Filter) :
    ((∃ document, filter.document default = .ok document) ↔ filter.CompilesInLimit) ∧
    ((∃ outcome, filter.report default = .ok outcome) ↔ filter.CompilesInLimit) ∧
    (∀ label, (∃ submission, filter.submit default label = .ok submission) ↔
      filter.CompilesInLimit) ∧
    (∀ ambient, (∃ text, filter.preview .plain default ambient = .ok text) ↔
      filter.ShowsInLimit) ∧
    (∀ ambient, (∃ text, filter.preview .markup default ambient = .ok text) ↔
      filter.ShowsInLimit) ∧
    filter.document default = (filter.usable?.map (document default)).getD (.ok matchAll) := by
  exact ⟨exists_document_iff default filter, exists_report_iff default filter,
    fun label => exists_submit_iff default label filter,
    fun ambient => exists_preview_iff_inLimit (Or.inl rfl) default ambient filter,
    fun ambient => exists_preview_iff_inLimit (Or.inr rfl) default ambient filter,
    (document_usable? default filter).symm⟩

/-- The filter that compares one field with a value. -/
def comparing (value : Value) : Filter :=
  tree (some (.leaf (.plain { id := "c", field := "bytes", operator := some .equal, value })))

/-- A value that is too long on its field stops the query. -/
theorem not_compilesInLimit_comparing {value : Value} (hgiven : value.isBlank = false)
    (hlong : Coercion.isInLimit "bytes" value = false) : ¬(comparing value).CompilesInLimit := by
  intro h
  have husable : Condition.isUsable
      { id := "c", field := "bytes", operator := some .equal, value } = true := by
    simp [Condition.isUsable, Condition.comparison?, Condition.check, Operator.need, hgiven,
      Except.toOption]
  have hlimit := h _ (List.mem_singleton_self _) husable
  rw [Leaf.condition_plain, Condition.compilesInLimit, hlong] at hlimit
  contradiction

/-- A value with an integer that cannot be written stops the previews. -/
theorem not_showsInLimit_comparing {value : Value} (hgiven : value.isBlank = false)
    (hlong : value.isWritable = false) : ¬(comparing value).ShowsInLimit := by
  intro h
  have husable : Condition.isUsable
      { id := "c", field := "bytes", operator := some .equal, value } = true := by
    simp [Condition.isUsable, Condition.comparison?, Condition.check, Operator.need, hgiven,
      Except.toOption]
  have hlimit := h _ (List.mem_singleton_self _) husable
  rw [Leaf.condition_plain, Condition.showsInLimit, hlong] at hlimit
  contradiction

/-- A condition that was filled in with one digit more than an integer may have is neither compiled
nor reported nor submitted, and one with an integer of that size is not shown. -/
theorem long_integers_stop_filter :
    let typed := comparing (.text (String.ofList (List.replicate 4301 '1')))
    let given := comparing (.int (10 ^ 4300))
    (∀ document, typed.document .and ≠ .ok document) ∧
      (∀ outcome, typed.report .and ≠ .ok outcome) ∧
      (∀ submission, typed.submit .and none ≠ .ok submission) ∧
      (∀ text, given.preview .plain .and none ≠ .ok text) ∧
      ∀ text, given.preview .markup .and none ≠ .ok text := by
  intro typed given
  have htyped : ¬typed.CompilesInLimit :=
    not_compilesInLimit_comparing (Value.isBlank_replicate (by decide) 4300)
      (Coercion.isInLimit_replicate (by decide) (Nat.le_refl 4300))
  have hgiven : ¬given.ShowsInLimit :=
    not_showsInLimit_comparing rfl (Value.not_isWritable_pow (Nat.le_refl 4300))
  exact ⟨fun document h => htyped ((exists_document_iff _ _).mp ⟨document, h⟩),
    fun outcome h => htyped ((exists_report_iff _ _).mp ⟨outcome, h⟩),
    fun submission h => htyped ((exists_submit_iff _ _ _).mp ⟨submission, h⟩),
    fun text h => hgiven ((exists_preview_iff_inLimit (Or.inl rfl) _ _ _).mp ⟨text, h⟩),
    fun text h => hgiven ((exists_preview_iff_inLimit (Or.inr rfl) _ _ _).mp ⟨text, h⟩)⟩

end Filter

end FilterQuery
