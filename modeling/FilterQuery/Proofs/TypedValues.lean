import FilterQuery.Proofs.Filled
import FilterQuery.Proofs.ListedValues

/-!
# Several values in one text

Several values can be given as a list or typed as one text, with commas between them.  Around each
value may stand any padding, and between two commas may stand nothing but padding.  However the
values are typed, they are the same to a condition as those of the list, and the text in which a
list is shown is one way of typing it.

Main results:

- `Coercion.listedTexts_eq_iff`: the values of a text are exactly those that it is a typing of.
- `Coercion.isTypingOf_intercalate`: the text in which values are shown is a typing of them.
- `Condition.clause?_of_asList_eq`: conditions that compare with the same values have one clause.
- `Condition.typed_and_listed_agree`: typed values and listed values are the same.
-/

namespace FilterQuery

open Number

namespace Coercion

/-! ## Typing -/

/-- A text that can be one of several values: it is not blank, no comma stands in it, and no padding
stands around it. -/
structure IsEntry (x : String) : Prop where
  filled : Text.isBlank x = false
  single : ',' ∉ x.toList
  trimmed : Text.trim x = x

/-- Whether some values stand between the commas, in order and with any padding around each of them,
and nothing but padding stands between the others. -/
inductive Segments : List String → List (List Char) → Prop
  | nil : Segments [] []
  | blank {xs : List String} {segment : List Char} {segments : List (List Char)}
      (h : segment.all Text.isBlankChar = true) (rest : Segments xs segments) :
      Segments xs (segment :: segments)
  | entry (x : String) {xs : List String} {left right : List Char} {segments : List (List Char)}
      (hleft : left.all Text.isBlankChar = true) (hright : right.all Text.isBlankChar = true)
      (rest : Segments xs segments) :
      Segments (x :: xs) ((left ++ x.toList ++ right) :: segments)

/-- Whether some values are typed as a text. -/
def IsTypingOf (xs : List String) (s : String) : Prop :=
  ∃ segments, Segments xs segments ∧ s.toList = [','].intercalate segments

/-- The parts of a text are its segments between commas. -/
theorem splitCommas_eq_splitOn (s : List Char) : splitCommas s = s.splitOn ',' := by
  induction s with
  | nil => rfl
  | cons c rest ih =>
      rw [splitCommas, ih, List.splitOn_eq_splitOnP, List.splitOn_eq_splitOnP,
        List.splitOnP_cons_eq_if_modifyHead]
      cases hparts : rest.splitOnP (· == ',') with
      | nil => exact absurd hparts (List.splitOnP_ne_nil _ rest)
      | cons part parts =>
          by_cases hcomma : c = ','
          · simp [hcomma]
          · simp [hcomma]

/-- The text of a part between two commas, unless it is blank. -/
def partText? (part : List Char) : Option String :=
  if (Text.trimChars part).isEmpty then none else some (String.ofList (Text.trimChars part))

/-- The values of a text are what its parts hold. -/
theorem listedTexts_eq (s : String) :
    listedTexts s = (s.toList.splitOn ',').filterMap partText? := by
  rw [listedTexts, splitCommas_eq_splitOn, List.filterMap_map]
  rfl

/-- A part that is padding holds nothing. -/
theorem partText?_of_blank {part : List Char} (h : part.all Text.isBlankChar = true) :
    partText? part = none := by
  rw [partText?, Text.trimChars_eq_nil_iff.mpr h]
  rfl

/-- A value is found whatever padding stands around it. -/
theorem partText?_padded {x : String} (h : IsEntry x) {left right : List Char}
    (hleft : left.all Text.isBlankChar = true) (hright : right.all Text.isBlankChar = true) :
    partText? (left ++ x.toList ++ right) = some x := by
  have htrim : Text.trimChars (left ++ x.toList ++ right) = x.toList := by
    rw [Text.trimChars, Text.trimBy_append hleft hright, ← Text.trimChars]
    conv_rhs => rw [← h.trimmed, Text.trim, String.toList_ofList]
  have hsome : ¬x.toList.isEmpty = true := by
    intro hempty
    have hfilled := h.filled
    rw [Text.isBlank, List.isEmpty_iff.mp hempty] at hfilled
    contradiction
  rw [partText?, htrim, if_neg hsome, String.ofList_toList]

/-- The values that stand in segments are what the segments hold. -/
theorem Segments.filterMap_partText? {xs : List String} {segments : List (List Char)}
    (h : Segments xs segments) (hxs : ∀ x ∈ xs, IsEntry x) : segments.filterMap partText? = xs := by
  induction h with
  | nil => rfl
  | blank hblank _ ih => rw [List.filterMap_cons_none (partText?_of_blank hblank), ih hxs]
  | entry x hleft hright _ ih =>
      rw [List.forall_mem_cons] at hxs
      rw [List.filterMap_cons_some (partText?_padded hxs.1 hleft hright), ih hxs.2]

/-- No comma stands in a segment. -/
theorem Segments.no_comma {xs : List String} {segments : List (List Char)}
    (h : Segments xs segments) (hxs : ∀ x ∈ xs, IsEntry x) :
    ∀ segment ∈ segments, ',' ∉ segment := by
  have hpadding : ∀ padding : List Char, padding.all Text.isBlankChar = true → ',' ∉ padding := by
    intro padding hblank hcomma
    have hmem := List.all_eq_true.mp hblank ',' hcomma
    revert hmem
    decide
  induction h with
  | nil => simp
  | blank hblank _ ih =>
      rw [List.forall_mem_cons]
      exact ⟨hpadding _ hblank, ih hxs⟩
  | entry x hleft hright _ ih =>
      rw [List.forall_mem_cons] at hxs ⊢
      refine ⟨?_, ih hxs.2⟩
      rw [List.mem_append, List.mem_append, not_or, not_or]
      exact ⟨⟨hpadding _ hleft, hxs.1.single⟩, hpadding _ hright⟩

/-- The parts of any text are segments with the values of the text. -/
theorem segments_filterMap_partText? (parts : List (List Char)) :
    Segments (parts.filterMap partText?) parts := by
  induction parts with
  | nil => exact .nil
  | cons part rest ih =>
      by_cases hblank : part.all Text.isBlankChar = true
      · rw [List.filterMap_cons_none (partText?_of_blank hblank)]
        exact .blank hblank ih
      · have hsome : ¬(Text.trimChars part).isEmpty = true := by
          rwa [List.isEmpty_iff, Text.trimChars_eq_nil_iff]
        have hentry : partText? part = some (String.ofList (Text.trimChars part)) := if_neg hsome
        obtain ⟨left, right, hleft, hright, hpart⟩ :=
          Text.exists_eq_append_trimBy Text.isBlankChar part
        have hsegment : part =
            left ++ (String.ofList (Text.trimChars part)).toList ++ right := by
          rw [String.toList_ofList]
          exact hpart
        rw [List.filterMap_cons_some hentry]
        conv => arg 2; rw [hsegment]
        exact .entry _ hleft hright ih

/-- The values of a text are exactly those that the text is a typing of. -/
theorem listedTexts_eq_iff {xs : List String} (hxs : ∀ x ∈ xs, IsEntry x) (s : String) :
    listedTexts s = xs ↔ IsTypingOf xs s := by
  constructor
  · rintro rfl
    refine ⟨s.toList.splitOn ',', ?_, (List.intercalate_splitOn ',').symm⟩
    rw [listedTexts_eq]
    exact segments_filterMap_partText? _
  · rintro ⟨segments, hsegments, hs⟩
    rw [listedTexts_eq, hs]
    by_cases hnil : segments = []
    · subst hnil
      cases hsegments
      rfl
    · rw [List.splitOn_intercalate ',' (hsegments.no_comma hxs) hnil]
      exact hsegments.filterMap_partText? hxs

/-- Texts in a list are the values that the list stands for, unless they are empty. -/
theorem asList_list_text {xs : List String} (h : ∀ x ∈ xs, x ≠ "") :
    asList (.list (xs.map Value.text)) = xs.map Value.text := by
  rw [asList, List.filter_eq_self]
  intro value hvalue
  obtain ⟨x, hx, rfl⟩ := List.mem_map.mp hvalue
  simpa [Value.isUnset] using h x hx

/-- A value is not the empty text. -/
theorem IsEntry.ne_empty {x : String} (h : IsEntry x) : x ≠ "" := by
  rintro rfl
  have hfilled := h.filled
  contradiction

/-- A list of values and a text that they are typed as stand for the same. -/
theorem asList_of_isTypingOf {xs : List String} (hxs : ∀ x ∈ xs, IsEntry x) {s : String}
    (h : IsTypingOf xs s) : asList (.text s) = asList (.list (xs.map Value.text)) := by
  rw [asList_list_text fun x hx => (hxs x hx).ne_empty, asList, (listedTexts_eq_iff hxs s).mpr h]

/-! ## Texts that are shown -/

/-- The items of a list are shown with commas between their texts. -/
theorem displayGiven_list {α : Type} {f : α → Value} {g : α → String}
    (h : ∀ a, (f a).display = .ok (g a)) (items : List α) :
    displayGiven (.list (items.map f)) = .ok (String.intercalate "," (items.map g)) := by
  have htexts : (items.map f).mapM Value.display = .ok (items.map g) := by
    rw [List.mapM_map]
    exact Traversal.mapM_eq_ok_map fun a _ => h a
  rw [displayGiven, htexts]
  rfl

/-- Texts in a list are shown as they are. -/
theorem displayGiven_list_text (xs : List String) :
    displayGiven (.list (xs.map Value.text)) = .ok (String.intercalate "," xs) := by
  simpa using displayGiven_list (f := Value.text) (g := id) (fun _ => rfl) xs

/-- The text in which values are shown is a typing of them. -/
theorem isTypingOf_intercalate (xs : List String) : IsTypingOf xs (String.intercalate "," xs) := by
  refine ⟨xs.map String.toList, ?_, String.toList_intercalate⟩
  induction xs with
  | nil => exact .nil
  | cons x rest ih =>
      have hentry : Segments (x :: rest) (([] ++ x.toList ++ []) :: rest.map String.toList) :=
        .entry x rfl rfl ih
      simpa using hentry

end Coercion

namespace Condition

/-- Conditions for several values that differ in nothing but the way in which the same values are
given have the same clause. -/
theorem clause?_of_asList_eq {c : Condition} {op : Operator} (hop : c.operator = some op)
    (hmany : op = .oneOf ∨ op = .noneOf) {first second : Value}
    (hblank : second.isBlank = first.isBlank)
    (hlist : Coercion.asList second = Coercion.asList first) :
    Condition.clause? { c with value := second } = Condition.clause? { c with value := first } := by
  have hsame : Condition.isUsable { c with value := second } =
      Condition.isUsable { c with value := first } := by
    have hcomparison : comparison? { c with value := second } =
        (comparison? { c with value := first }).map fun comparison =>
          ⟨{ c with value := second }, comparison.operator⟩ :=
      comparison?_of_same rfl rfl hblank rfl rfl
    rw [isUsable, hcomparison, Option.isSome_map, ← isUsable]
  cases husable : Condition.isUsable { c with value := first } with
  | false =>
      rw [clause?_of_not_isUsable husable, clause?_of_not_isUsable (hsame.trans husable)]
  | true =>
      have hfirst := clause?_of_many (c := { c with value := first }) hop hmany husable
      have hsecond :=
        clause?_of_many (c := { c with value := second }) hop hmany (hsame.trans husable)
      rw [hfirst.2, hsecond.2]
      simp only [membership, hlist]

/-- A condition for several values that names a field and whose value was filled in can be used. -/
theorem isUsable_of_many {c : Condition} {op : Operator} (hop : c.operator = some op)
    (hmany : op = .oneOf ∨ op = .noneOf) (hfield : c.field ≠ "")
    (hgiven : c.value.isBlank = false) : c.isUsable = true := by
  have hneed : op.need = .value := by
    rcases hmany with rfl | rfl
    · rfl
    · rfl
  have hchecked := c.checked_check
  rw [isUsable, comparison?]
  generalize c.check = found at hchecked
  cases hchecked with
  | unnamed hempty => exact absurd hempty hfield
  | unstated _ hnone => simp [hop] at hnone
  | valueless _ _ _ hblank => simp [hgiven] at hblank
  | boundless _ hop' hbound =>
      obtain rfl := Option.some.inj (hop.symm.trans hop')
      simp [hneed] at hbound
  | ready _ => rfl

/-- For a condition with an operator for several values, it makes no difference whether the values
are given as a list or typed as a text, in any of the ways to type them.  The clause tests for the
values, each of them coerced, or negates that.  The text in which the list is shown is one of those
ways, and stands for the values of the list again. -/
theorem typed_and_listed_agree {c : Condition} {op : Operator} (hop : c.operator = some op)
    (hmany : op = .oneOf ∨ op = .noneOf) {xs : List String} (hsome : xs ≠ [])
    (hxs : ∀ x ∈ xs, Coercion.IsEntry x) :
    (∀ s, Coercion.IsTypingOf xs s →
      Condition.clause? { c with value := .text s } =
        Condition.clause? { c with value := .list (xs.map Value.text) }) ∧
    (c.field ≠ "" →
      Condition.clause? { c with value := .list (xs.map Value.text) } =
        (fun terms => some ((if op.negated then Clause.negation else Clause.primitive)
          (.terms c.field terms))) <$> (xs.map Value.text).mapM (Coercion.coerce c.field)) ∧
    ∃ shown, Coercion.displayGiven (.list (xs.map Value.text)) = .ok shown ∧
      Coercion.IsTypingOf xs shown ∧ Coercion.asList (.text shown) = xs.map Value.text := by
  have hlist : Coercion.asList (.list (xs.map Value.text)) = xs.map Value.text :=
    Coercion.asList_list_text fun x hx => (hxs x hx).ne_empty
  have hgiven : (Value.list (xs.map Value.text)).isBlank = false := by
    obtain ⟨x, hx⟩ := List.exists_mem_of_ne_nil xs hsome
    have hfilled : ¬(Value.text x).isBlank = true := Bool.eq_false_iff.mp (hxs x hx).filled
    rw [Value.isBlank_list, List.all_eq_false]
    exact ⟨.text x, List.mem_map_of_mem hx, hfilled⟩
  refine ⟨?_, ?_, ?_⟩
  · intro s htyping
    have hsame := Coercion.asList_of_isTypingOf hxs htyping
    apply clause?_of_asList_eq hop hmany
    · -- A blank text has no values.
      have hfilled : (Value.text s).isBlank = false := by
        rw [Value.isBlank]
        by_contra hblank
        rw [Coercion.asList_text_blank (by simpa using hblank), hlist] at hsame
        exact hsome (List.map_eq_nil_iff.mp hsame.symm)
      rw [hfilled, hgiven]
    · exact hsame
  · intro hfield
    have husable : Condition.isUsable { c with value := .list (xs.map Value.text) } = true :=
      isUsable_of_many hop hmany hfield hgiven
    have hclause := clause?_of_many (c := { c with value := .list (xs.map Value.text) }) hop hmany
      husable
    rw [hclause.2, membership, hlist]
    exact Functor.map_map ..
  · have htyping := Coercion.isTypingOf_intercalate xs
    refine ⟨_, Coercion.displayGiven_list_text xs, htyping, ?_⟩
    rw [Coercion.asList_of_isTypingOf hxs htyping, hlist]

/-- Two values, one of them a number, with padding and with parts that are blank. -/
theorem typed_and_listed_agree_padded :
    let c : Condition := { id := "c", field := "bytes", operator := some .oneOf }
    (∀ x ∈ ["a b", "07"], Coercion.IsEntry x) ∧
      Coercion.IsTypingOf ["a b", "07"] ", a b\t,\u3000,07," ∧
      Condition.clause? { c with value := .text ", a b\t,\u3000,07," } =
        .ok (some (.primitive (.terms "bytes" [.text "a b", .int 7]))) := by
  intro c
  have hentries : ∀ x ∈ ["a b", "07"], Coercion.IsEntry x := by
    simp only [List.forall_mem_cons]
    exact ⟨⟨by decide, by decide, by decide +kernel⟩, ⟨by decide, by decide, by decide +kernel⟩,
      by simp⟩
  have htyping : Coercion.IsTypingOf ["a b", "07"] ", a b\t,\u3000,07," :=
    (Coercion.listedTexts_eq_iff hentries _).mp (by decide +kernel)
  have hagree := typed_and_listed_agree (c := c) rfl (.inl rfl) (by simp) hentries
  have hterms : [Value.text "a b", .text "07"].mapM (Coercion.coerce "bytes") =
      .ok [.text "a b", .int 7] := rfl
  refine ⟨hentries, htyping, ?_⟩
  rw [hagree.1 _ htyping, hagree.2.1 (by decide)]
  simp only [List.map_cons, List.map_nil, c, hterms]
  rfl

end Condition

end FilterQuery
