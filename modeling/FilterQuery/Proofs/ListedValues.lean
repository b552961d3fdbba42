import FilterQuery.Proofs.Limits
import FilterQuery.Proofs.Padding

/-!
# Conditions with several values

Whether a condition for several values can be used, and which values it compares with, is found
out in two ways.  A condition is given up if its value is blank, at any depth.  The values come from
the parts of a text between its commas, without padding, and from the items of a list, without those
that are nothing or the empty text.

The two do not fit together.  A text of commas and padding is not blank, but has no parts, and a
list may hold padding, or a list of padding, beside a value that was filled in.  Only with these
does a condition that can be used ask for no values, or for blank ones.

Main results:

- `Coercion.all_isBlank_splitCommas`: the parts of a text are all padding if the text is commas and
  padding.
- `Coercion.isBlank_of_coerce`: coercion keeps whether a value is blank.
- `Condition.clause?_of_many`: the clause of a condition for several values is a membership test.
- `Condition.terms_filled_unless`: which terms the clause of a usable condition has.
-/

namespace FilterQuery

open Number

namespace Coercion

/-! ## Parts of a text -/

/-- The parts of a text are padding, all of them, exactly if nothing but commas and padding stands
in the text. -/
theorem all_isBlank_splitCommas (s : List Char) :
    (splitCommas s).all (fun part => part.all Text.isBlankChar) =
      s.all fun c => c == ',' || Text.isBlankChar c := by
  induction s with
  | nil => rfl
  | cons c rest ih =>
      rw [splitCommas, List.all_cons, ← ih]
      cases hparts : splitCommas rest with
      | nil => exact absurd hparts (splitCommas_ne_nil rest)
      | cons part parts =>
          by_cases hcomma : c = ','
          · simp [hcomma]
          · have hbeq : (c == ',') = false := by simpa using hcomma
            simp [hcomma, hbeq, Bool.and_assoc]

/-- The values of a text are texts that were filled in. -/
theorem isBlank_of_mem_asList_text {s : String} {value : Value} (h : value ∈ asList (.text s)) :
    value.isBlank = false := by
  rcases List.mem_map.mp h with ⟨part, hpart, rfl⟩
  rcases List.mem_filterMap.mp hpart with ⟨trimmed, htrimmed, hkept⟩
  rcases List.mem_map.mp htrimmed with ⟨chars, _, rfl⟩
  by_cases hempty : (Text.trimChars chars).isEmpty = true
  · simp [hempty] at hkept
  · obtain rfl : String.ofList (Text.trimChars chars) = part := by simpa [hempty] using hkept
    have hfilled : ¬(Text.trimChars chars).all Text.isBlankChar = true := by
      rw [Text.trimChars, Text.all_trimBy, ← Text.trimChars_eq_nil_iff]
      simpa using hempty
    simpa [Value.isBlank, Text.isBlank] using hfilled

/-- A text has no values exactly if nothing but commas and padding stands in it. -/
theorem asList_text_eq_nil_iff (s : String) :
    asList (.text s) = [] ↔ ∀ c ∈ s.toList, c = ',' ∨ Text.isBlankChar c = true := by
  have hparts : asList (.text s) = [] ↔
      ∀ part ∈ splitCommas s.toList, part.all Text.isBlankChar = true := by
    rw [asList, List.map_eq_nil_iff, listedTexts, List.filterMap_eq_nil_iff, List.forall_mem_map]
    refine forall₂_congr fun part _ => ?_
    rw [← Text.trimChars_eq_nil_iff]
    cases Text.trimChars part <;> simp
  rw [hparts, ← List.all_eq_true, all_isBlank_splitCommas, List.all_eq_true]
  simp only [Bool.or_eq_true, beq_iff_eq]

/-! ## Values that were filled in -/

/-- What was left out is blank. -/
theorem isBlank_of_isUnset {value : Value} (h : value.isUnset = true) : value.isBlank = true := by
  cases value with
  | null => rfl
  | text s =>
      obtain rfl : s = "" := by simpa [Value.isUnset] using h
      rfl
  | _ => contradiction

/-- A value that was filled in stands for no values exactly if it is a text of nothing but commas
and padding. -/
theorem asList_eq_nil_iff {value : Value} (h : value.isBlank = false) :
    asList value = [] ↔
      ∃ s, value = .text s ∧ ∀ c ∈ s.toList, c = ',' ∨ Text.isBlankChar c = true := by
  cases value with
  | null => contradiction
  | text s => simp only [asList_text_eq_nil_iff, Value.text.injEq, exists_eq_left']
  | list items =>
      rw [Value.isBlank_list, List.all_eq_false] at h
      obtain ⟨item, hitem, hfilled⟩ := h
      have hkept : item ∈ asList (.list items) := by
        refine List.mem_filter.mpr ⟨hitem, ?_⟩
        cases hunset : item.isUnset with
        | false => rfl
        | true => exact absurd (isBlank_of_isUnset hunset) hfilled
      exact iff_of_false (List.ne_nil_of_mem hkept) (by simp)
  | _ => simp [asList]

/-- A value that was filled in stands for a blank one exactly if it is a list with a blank item that
is neither nothing nor the empty text. -/
theorem exists_isBlank_mem_asList_iff {value : Value} (h : value.isBlank = false) :
    (∃ item ∈ asList value, item.isBlank = true) ↔
      ∃ items, value = .list items ∧
        ∃ item ∈ items, item.isBlank = true ∧ item.isUnset = false := by
  cases value with
  | null => contradiction
  | text s =>
      refine iff_of_false ?_ (by simp)
      rintro ⟨item, hitem, hblank⟩
      rw [isBlank_of_mem_asList_text hitem] at hblank
      contradiction
  | list items =>
      simp only [asList, List.mem_filter, Value.list.injEq, exists_eq_left', Bool.not_eq_true']
      exact exists_congr fun item => and_assoc.trans (and_congr_right fun _ => and_comm)
  | _ => simp [asList, Value.isBlank]

/-- A number is never blank. -/
theorem Numeral.isBlank_of_value {numeral : Numeral} {value : Value}
    (h : numeral.value = .ok value) : value.isBlank = false := by
  unfold Numeral.value at h
  split at h
  · rcases Except.ok.inj h with rfl
    rfl
  · rcases Traversal.map_eq_ok_iff.mp h with ⟨n, _, rfl⟩
    rfl

/-- Coercion keeps whether a value is blank. -/
theorem isBlank_of_coerce {field : String} {value result : Value}
    (h : coerce field value = .ok result) : result.isBlank = value.isBlank := by
  by_cases hexact : Field.isExact field = true
  · rw [coerce_of_isExact hexact] at h
    rw [Except.ok.inj h]
  · unfold coerce at h
    rw [if_neg hexact] at h
    cases value with
    | text s =>
        cases hnumeral : numeralOfText? s with
        | none =>
            simp only [hnumeral] at h
            rw [Except.ok.inj h]
        | some numeral =>
            simp only [hnumeral] at h
            have hgiven : ¬Text.isBlank s = true := by
              intro hblank
              rw [numeralOfText?_of_isBlank hblank] at hnumeral
              contradiction
            rw [Numeral.isBlank_of_value h, Value.isBlank, Bool.eq_false_iff.mpr hgiven]
    | _ => rw [← Except.ok.inj h]

/-- Coercion keeps which of several values are blank. -/
theorem map_isBlank_of_mapM_coerce {field : String} {values results : List Value}
    (h : values.mapM (coerce field) = .ok results) :
    results.map Value.isBlank = values.map Value.isBlank := by
  have hall := Traversal.forall₂_of_mapM_eq_ok h
  clear h
  induction hall with
  | nil => rfl
  | cons hvalue _ ih => rw [List.map_cons, List.map_cons, isBlank_of_coerce hvalue, ih]

end Coercion

/-! ## The terms of a condition -/

namespace Condition

/-- The membership test of a condition whose value was filled in has no terms exactly if that value
is a text of commas and padding, and it has a blank term exactly if the value is a list with a blank
item that is neither nothing nor the empty text. -/
theorem terms_of_membership {c : Condition} {p : Primitive} (hgiven : c.value.isBlank = false)
    (h : c.membership = .ok p) :
    ∃ terms, p = .terms c.field terms ∧
      (terms = [] ↔
        ∃ s, c.value = .text s ∧ ∀ char ∈ s.toList, char = ',' ∨ Text.isBlankChar char = true) ∧
      ((∃ term ∈ terms, term.isBlank = true) ↔
        ∃ items, c.value = .list items ∧
          ∃ item ∈ items, item.isBlank = true ∧ item.isUnset = false) := by
  obtain ⟨terms, hterms, rfl⟩ := Traversal.map_eq_ok_iff.mp h
  have hblank := Coercion.map_isBlank_of_mapM_coerce hterms
  refine ⟨terms, rfl, ?_, ?_⟩
  · have hlength : terms.length = (Coercion.asList c.value).length := by
      simpa using congrArg List.length hblank
    rw [← Coercion.asList_eq_nil_iff hgiven, ← List.length_eq_zero_iff, hlength,
      List.length_eq_zero_iff]
  · rw [← Coercion.exists_isBlank_mem_asList_iff hgiven, ← List.mem_map, hblank, List.mem_map]

/-- A condition for several values that can be used has a value, and its clause is its membership
test or the negation of that. -/
theorem clause?_of_many {c : Condition} {op : Operator} (hop : c.operator = some op)
    (hmany : op = .oneOf ∨ op = .noneOf) (husable : c.isUsable = true) :
    c.value.isBlank = false ∧
      c.clause? = (fun p => some ((if op.negated then Clause.negation else Clause.primitive) p)) <$>
        c.membership := by
  obtain ⟨hready, hclause⟩ := clause?_of_isUsable hop husable
  constructor
  · apply hready.valued
    rcases hmany with h | h <;> rw [h] <;> rfl
  · have hprimitive : Comparison.primitive ⟨c, op⟩ = c.membership := by
      rw [Comparison.primitive]
      rcases hmany with h | h <;> rw [h]
    rw [hclause, hprimitive]

/-- A condition for several values that can be used has a clause as long as the integers in its
values are in the limit.  The clause tests for terms, or for none of them.  There are terms unless
the value is a text of commas and padding, and none of them is blank unless the value is a list with
a blank item that is neither nothing nor the empty text. -/
theorem terms_filled_unless {c : Condition} {op : Operator} (hop : c.operator = some op)
    (hmany : op = .oneOf ∨ op = .noneOf) (husable : c.isUsable = true) :
    ((∃ clause, c.clause? = .ok (some clause)) ↔
        (Coercion.asList c.value).all (Coercion.isInLimit c.field) = true) ∧
      ∀ clause, c.clause? = .ok (some clause) →
        ∃ terms, clause = (if op.negated then Clause.negation else Clause.primitive)
            (.terms c.field terms) ∧
          (terms = [] ↔
            ∃ s, c.value = .text s ∧
              ∀ char ∈ s.toList, char = ',' ∨ Text.isBlankChar char = true) ∧
          ((∃ term ∈ terms, term.isBlank = true) ↔
            ∃ items, c.value = .list items ∧
              ∃ item ∈ items, item.isBlank = true ∧ item.isUnset = false) := by
  obtain ⟨hgiven, hclause⟩ := clause?_of_many hop hmany husable
  rw [← exists_membership_iff, hclause]
  constructor
  · constructor
    · rintro ⟨clause, h⟩
      rcases Traversal.map_eq_ok_iff.mp h with ⟨p, hp, _⟩
      exact ⟨p, hp⟩
    · rintro ⟨p, hp⟩
      exact ⟨_, Traversal.map_eq_ok_iff.mpr ⟨p, hp, rfl⟩⟩
  · intro clause h
    obtain ⟨p, hp, hsome⟩ := Traversal.map_eq_ok_iff.mp h
    obtain ⟨terms, rfl, hempty, hblank⟩ := terms_of_membership hgiven hp
    exact ⟨terms, (Option.some.inj hsome).symm, hempty, hblank⟩

/-- Of a list of padding and a word, the padding becomes a term as well. -/
theorem terms_filled_unless_padded :
    let c : Condition :=
      { id := "c", field := "host", operator := some .noneOf
        value := .list [.text " ", .text "x"] }
    c.isUsable = true ∧ ∃ terms, c.clause? = .ok (some (.negation (.terms "host" terms))) ∧
      terms ≠ [] ∧ ∃ term ∈ terms, term.isBlank = true := by
  intro c
  have husable : c.isUsable = true := by decide +kernel
  obtain ⟨hexists, hterms⟩ := terms_filled_unless (c := c) rfl (.inr rfl) husable
  obtain ⟨clause, hclause⟩ := hexists.mpr (by decide +kernel)
  obtain ⟨terms, rfl, hempty, hblank⟩ := hterms clause hclause
  refine ⟨husable, terms, hclause, ?_, ?_⟩
  · rw [Ne, hempty]
    rintro ⟨s, hs, _⟩
    contradiction
  · rw [hblank]
    exact ⟨_, rfl, .text " ", by simp, by decide, by decide⟩

/-- A condition whose value is a comma can be used, but it compares with no values at all. -/
theorem comma_stands_for_no_terms :
    let c : Condition :=
      { id := "c", field := "verb.keyword", operator := some .oneOf, value := .text "," }
    c.notice? = none ∧ c.clause? = .ok (some (.primitive (.terms "verb.keyword" []))) :=
  ⟨rfl, rfl⟩

end Condition

end FilterQuery
