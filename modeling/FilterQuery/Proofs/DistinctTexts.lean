import FilterQuery.Proofs.Limits
import FilterQuery.Suggestion
import Mathlib.Data.List.Induction
import Mathlib.Data.List.Nodup

/-!
# Distinct texts

Texts are collected one after the other, and one that is there already is passed over.  What is
collected holds every text once.  Values are collected by their texts, which all of them have unless
an integer in one of them is too long.

The texts stand in the order in which they occur first.  This is kept from value to value: a text
that is new comes last, and all values before it have shown the others and not this one.

Main results:

- `mem_foldl_insertText`, `nodup_foldl_insertText`: every text is collected, and none twice.
- `exists_distinctTexts_iff`: values have distinct texts exactly when all of them can be written.
- `areFirst_of_distinctTexts`: what is collected are the texts that occur, in their order.
- `distinctTexts_append`: two lists may be collected by themselves before they are put together.
- `distinctTexts_areFirst`: what the distinct texts of values are.
-/

namespace FilterQuery.Suggestion

open Number

variable {texts given : List String} {text other : String}

/-! ## Collecting texts -/

/-- A text that is there already is passed over. -/
theorem insertText_of_mem (h : text ∈ texts) : insertText texts text = texts :=
  if_pos (List.contains_iff_mem.mpr h)

/-- A new text comes last. -/
theorem insertText_of_not_mem (h : text ∉ texts) : insertText texts text = texts ++ [text] :=
  if_neg (mt List.contains_iff_mem.mp h)

/-- A text is added to those that are there. -/
theorem mem_insertText : other ∈ insertText texts text ↔ other ∈ texts ∨ other = text := by
  by_cases hthere : text ∈ texts
  · rw [insertText_of_mem hthere]
    constructor
    · exact Or.inl
    · rintro (h | rfl)
      · exact h
      · exact hthere
  · rw [insertText_of_not_mem hthere, List.mem_append, List.mem_singleton]

/-- No text stands there twice after one was added. -/
theorem nodup_insertText (h : texts.Nodup) (text : String) : (insertText texts text).Nodup := by
  by_cases hthere : text ∈ texts
  · rw [insertText_of_mem hthere]
    exact h
  · rw [insertText_of_not_mem hthere, ← List.concat_eq_append]
    exact List.Nodup.concat hthere h

/-- Every text is collected that was there or is given. -/
theorem mem_foldl_insertText :
    other ∈ given.foldl insertText texts ↔ other ∈ texts ∨ other ∈ given := by
  induction given generalizing texts with
  | nil => simp
  | cons text rest ih => rw [List.foldl_cons, ih, mem_insertText, List.mem_cons, or_assoc]

/-- No text is collected twice. -/
theorem nodup_foldl_insertText (h : texts.Nodup) (given : List String) :
    (given.foldl insertText texts).Nodup := by
  induction given generalizing texts with
  | nil => exact h
  | cons text rest ih => exact ih (nodup_insertText h text)

/-- Texts that are distinct already are collected as they stand. -/
theorem foldl_insertText_of_nodup (h : (texts ++ given).Nodup) :
    given.foldl insertText texts = texts ++ given := by
  induction given generalizing texts with
  | nil => rw [List.foldl_nil, List.append_nil]
  | cons text rest ih =>
      have hnew : text ∉ texts := fun hthere =>
        (List.nodup_append.mp h).2.2 text hthere text List.mem_cons_self rfl
      rw [List.append_cons] at h
      rw [List.foldl_cons, insertText_of_not_mem hnew, ih h, List.append_assoc,
        List.singleton_append]

/-- Of texts that are added to others, those that repeat earlier ones may be left out before. -/
theorem foldl_insertText_distinct (texts given : List String) :
    (given.foldl insertText []).foldl insertText texts = given.foldl insertText texts := by
  induction given using List.reverseRecOn with
  | nil => rfl
  | append_singleton given text ih =>
      rw [List.foldl_concat, List.foldl_concat]
      by_cases hthere : text ∈ given.foldl insertText []
      · have hgiven : text ∈ given.foldl insertText texts := by
          rw [mem_foldl_insertText] at hthere ⊢
          exact .inr (hthere.resolve_left List.not_mem_nil)
        rw [insertText_of_mem hthere, insertText_of_mem hgiven]
        exact ih
      · rw [insertText_of_not_mem hthere, List.foldl_concat, ih]

/-- Texts may be collected in two parts, and what was collected is collected together. -/
theorem foldl_insertText_append (texts given : List String) :
    (texts.foldl insertText [] ++ given.foldl insertText []).foldl insertText [] =
      (texts ++ given).foldl insertText [] := by
  rw [List.foldl_append, List.foldl_append, foldl_insertText_distinct, foldl_insertText_distinct]

/-! ## Collecting the texts of values -/

/-- A value that is missing holds no integer at all. -/
theorem isWritable_of_isMissing {value : Value} (h : value.isMissing = true) :
    value.isWritable = true := by
  cases value with
  | null | float _ => rfl
  | _ => contradiction

/-- Whether every value that is not missing has a text. -/
def AreShown (values : List Value) : Prop :=
  ∀ value ∈ values, value.isMissing = false → ∃ text, value.display = .ok text

/-- Values have distinct texts exactly when each of them that is not missing has a text. -/
theorem exists_distinctTexts_iff_areShown (values : List Value) :
    (∃ texts, distinctTexts values = .ok texts) ↔ AreShown values := by
  have hmap : (∃ texts, distinctTexts values = .ok texts) ↔
      ∃ texts, (values.filter fun value => !value.isMissing).mapM Value.display = .ok texts :=
    Traversal.exists_map_iff
  rw [hmap, Traversal.exists_mapM_iff]
  constructor
  · intro h value hvalue hthere
    exact h value (List.mem_filter.mpr ⟨hvalue, by simp [hthere]⟩)
  · intro h value hvalue
    obtain ⟨hvalue, hthere⟩ := List.mem_filter.mp hvalue
    exact h value hvalue (by simpa using hthere)

/-- Values have distinct texts exactly when every integer in them can be written. -/
theorem exists_distinctTexts_iff (values : List Value) :
    (∃ texts, distinctTexts values = .ok texts) ↔ ∀ value ∈ values, value.isWritable = true := by
  rw [exists_distinctTexts_iff_areShown]
  constructor
  · intro h value hvalue
    cases hmissing : value.isMissing with
    | true => exact isWritable_of_isMissing hmissing
    | false => exact (Value.exists_display_iff value).mp (h value hvalue hmissing)
  · intro h value hvalue _
    exact (Value.exists_display_iff value).mpr (h value hvalue)

/-- Values that are texts are collected like the texts. -/
theorem distinctTexts_map_text (texts : List String) :
    distinctTexts (texts.map Value.text) = .ok (texts.foldl insertText []) := by
  have hkeep : (texts.map Value.text).filter (fun value => !value.isMissing) =
      texts.map Value.text := by
    rw [List.filter_eq_self]
    intro value hvalue
    obtain ⟨text, _, rfl⟩ := List.mem_map.mp hvalue
    rfl
  have hshow : (texts.map Value.text).mapM Value.display = .ok texts := by
    rw [List.mapM_map]
    exact Traversal.mapM_eq_self fun _ _ => rfl
  rw [distinctTexts, hkeep, hshow]
  rfl

/-- Values that are distinct texts already are collected as they stand. -/
theorem distinctTexts_of_nodup (h : texts.Nodup) :
    distinctTexts (texts.map Value.text) = .ok texts := by
  have hnodup : ([] ++ texts).Nodup := h
  rw [distinctTexts_map_text, foldl_insertText_of_nodup hnodup, List.nil_append]

/-- A value that is missing is passed over. -/
theorem distinctTexts_concat_of_isMissing {value : Value} (h : value.isMissing = true)
    (values : List Value) : distinctTexts (values ++ [value]) = distinctTexts values := by
  have hskip : [value].filter (fun value => !value.isMissing) = [] := by simp [h]
  rw [distinctTexts, List.filter_append, hskip, List.append_nil]
  rfl

/-- Of a value that is not missing the text is collected, if it has one. -/
theorem distinctTexts_concat {value : Value} (h : value.isMissing = false) (values : List Value) :
    distinctTexts (values ++ [value]) = (do
      let texts ← distinctTexts values
      insertText texts <$> value.display) := by
  have hkeep : [value].filter (fun value => !value.isMissing) = [value] := by simp [h]
  rw [distinctTexts, distinctTexts, List.filter_append, hkeep, List.mapM_append]
  cases (values.filter fun value => !value.isMissing).mapM Value.display with
  | error limit => rfl
  | ok texts =>
      rw [List.mapM_cons]
      cases value.display with
      | error limit => rfl
      | ok text => exact congrArg Except.ok (List.foldl_concat insertText [] text texts)

/-! ## Texts in the order in which they occur -/

/-- Whether a value is not missing and has a certain text. -/
def IsShownAs (value : Value) (text : String) : Prop :=
  value.isMissing = false ∧ value.display = .ok text

/-- Whether a text is that of one of several values. -/
def Occurs (values : List Value) (text : String) : Prop :=
  ∃ value ∈ values, IsShownAs value text

/-- Whether a text occurs before another one, be it that the other one comes later or never: it
occurs among some of the first values, and the other one does not. -/
def OccursBefore (values : List Value) (text other : String) : Prop :=
  ∃ seen, seen <+: values ∧ Occurs seen text ∧ ¬Occurs seen other

/-- Whether texts are those that occur among values, each of them once and where it is first. -/
structure AreFirst (values : List Value) (texts : List String) : Prop where
  nodup : texts.Nodup
  mem_iff : ∀ text, text ∈ texts ↔ Occurs values text
  ordered : texts.Pairwise (OccursBefore values)

variable {value : Value} {values seen : List Value} {others : List String}

/-- A value has one text. -/
theorem IsShownAs.isShownAs_iff (h : IsShownAs value text) :
    IsShownAs value other ↔ other = text := by
  constructor
  · intro hother
    exact Except.ok.inj (hother.2.symm.trans h.2)
  · rintro rfl
    exact h

/-- With one more value its text occurs too. -/
theorem occurs_concat_iff :
    Occurs (values ++ [value]) text ↔ Occurs values text ∨ IsShownAs value text := by
  simp [Occurs, or_and_right, exists_or]

/-- What occurs among the first values occurs among all of them. -/
theorem Occurs.mono (h : Occurs seen text) (hseen : seen <+: values) : Occurs values text := by
  obtain ⟨value, hvalue, hshown⟩ := h
  exact ⟨value, hseen.subset hvalue, hshown⟩

/-- Values that come later do not change which text occurs before which. -/
theorem OccursBefore.concat (h : OccursBefore values text other) (value : Value) :
    OccursBefore (values ++ [value]) text other := by
  obtain ⟨seen, hseen, htext, hother⟩ := h
  exact ⟨seen, hseen.trans (List.prefix_append values [value]), htext, hother⟩

/-- Of two texts at most one occurs before the other. -/
theorem OccursBefore.asymm (h : OccursBefore values text other) :
    ¬OccursBefore values other text := by
  obtain ⟨seen, hseen, htext, hother⟩ := h
  rintro ⟨longer, hlonger, hthere, hnot⟩
  rcases List.prefix_or_prefix_of_prefix hseen hlonger with hfirst | hfirst
  · exact hnot (htext.mono hfirst)
  · exact hother (hthere.mono hfirst)

namespace AreFirst

/-- Among no values there is no text. -/
theorem nil : AreFirst [] [] where
  nodup := .nil
  mem_iff text := by simp [Occurs]
  ordered := .nil

/-- A value that is missing changes nothing. -/
theorem skip (h : AreFirst values texts) (hmissing : value.isMissing = true) :
    AreFirst (values ++ [value]) texts where
  nodup := h.nodup
  mem_iff text := by
    have hnot : ¬IsShownAs value text := by
      rintro ⟨hthere, _⟩
      rw [hmissing] at hthere
      contradiction
    rw [occurs_concat_iff, or_iff_left hnot]
    exact h.mem_iff text
  ordered := h.ordered.imp fun hbefore => hbefore.concat value

/-- The text of one more value is added. -/
theorem insert (h : AreFirst values texts) (hshown : IsShownAs value text) :
    AreFirst (values ++ [value]) (insertText texts text) where
  nodup := nodup_insertText h.nodup text
  mem_iff other := by
    rw [mem_insertText, occurs_concat_iff, hshown.isShownAs_iff, h.mem_iff]
  ordered := by
    have hlater : texts.Pairwise (OccursBefore (values ++ [value])) :=
      h.ordered.imp fun hbefore => hbefore.concat value
    by_cases hthere : text ∈ texts
    · rw [insertText_of_mem hthere]
      exact hlater
    · rw [insertText_of_not_mem hthere, List.pairwise_append]
      refine ⟨hlater, List.pairwise_singleton _ text, ?_⟩
      -- The values so far show every text that is there, and not the new one.
      intro other hother last hlast
      rcases List.mem_singleton.mp hlast with rfl
      have hnot : ¬Occurs values last := mt (h.mem_iff last).mpr hthere
      exact ⟨values, List.prefix_append values [value], (h.mem_iff other).mp hother, hnot⟩

/-- There is only one way to give the texts that occur, once and in their order. -/
theorem unique (h : AreFirst values texts) (hothers : AreFirst values others) : texts = others := by
  have hperm : texts.Perm others := by
    rw [List.perm_ext_iff_of_nodup h.nodup hothers.nodup]
    intro text
    rw [h.mem_iff, hothers.mem_iff]
  refine hperm.eq_of_pairwise ?_ h.ordered hothers.ordered
  intro text other _ _ hbefore hafter
  exact absurd hafter hbefore.asymm

end AreFirst

/-- What is collected are the texts that occur among the values, in their order. -/
theorem areFirst_of_distinctTexts (h : distinctTexts values = .ok texts) :
    AreFirst values texts := by
  -- The last value is taken off, since it is the last one to be collected.
  induction values using List.reverseRecOn generalizing texts with
  | nil =>
      rcases Except.ok.inj h with rfl
      exact AreFirst.nil
  | append_singleton values value ih =>
      cases hmissing : value.isMissing with
      | true =>
          rw [distinctTexts_concat_of_isMissing hmissing] at h
          exact (ih h).skip hmissing
      | false =>
          rw [distinctTexts_concat hmissing] at h
          rcases Traversal.bind_eq_ok_iff.mp h with ⟨given, hgiven, h⟩
          rcases Traversal.map_eq_ok_iff.mp h with ⟨text, htext, rfl⟩
          exact (ih hgiven).insert ⟨hmissing, htext⟩

/-- The texts that occur among values are collected whenever all these values have one. -/
theorem distinctTexts_eq_ok_iff :
    distinctTexts values = .ok texts ↔ AreShown values ∧ AreFirst values texts := by
  constructor
  · intro h
    exact ⟨(exists_distinctTexts_iff_areShown values).mp ⟨texts, h⟩, areFirst_of_distinctTexts h⟩
  · rintro ⟨hshown, hfirst⟩
    obtain ⟨collected, hcollected⟩ := (exists_distinctTexts_iff_areShown values).mpr hshown
    rw [hcollected, (areFirst_of_distinctTexts hcollected).unique hfirst]

/-- What was collected is collected as it stands. -/
theorem distinctTexts_distinctTexts (values : List Value) :
    (do
      let texts ← distinctTexts values
      distinctTexts (texts.map .text)) = distinctTexts values := by
  cases h : distinctTexts values with
  | error limit => rfl
  | ok texts => exact distinctTexts_of_nodup (areFirst_of_distinctTexts h).nodup

/-- Values that stand behind others may be collected by themselves first. -/
theorem distinctTexts_append (values more : List Value) :
    distinctTexts (values ++ more) = (do
      let texts ← distinctTexts values
      let others ← distinctTexts more
      distinctTexts ((texts ++ others).map .text)) := by
  simp only [distinctTexts_map_text]
  rw [distinctTexts, distinctTexts, distinctTexts, List.filter_append, List.mapM_append]
  cases (values.filter fun value => !value.isMissing).mapM Value.display with
  | error limit => rfl
  | ok texts =>
      cases (more.filter fun value => !value.isMissing).mapM Value.display with
      | error limit => rfl
      | ok others => exact congrArg Except.ok (foldl_insertText_append texts others).symm

/-- The distinct texts of values are what one would pick out of them: there are distinct texts
exactly when every value that is not missing has a text, and they are then the texts that occur,
each of them once, in the order in which they occur first.  Nothing is left to collect when they are
collected again.  And values that stand behind others may be collected by themselves first, with the
same texts or the same failure. -/
theorem distinctTexts_areFirst (values : List Value) :
    ((∃ texts, distinctTexts values = .ok texts) ↔ AreShown values) ∧
    (∀ texts, distinctTexts values = .ok texts ↔ AreShown values ∧ AreFirst values texts) ∧
    (do
      let texts ← distinctTexts values
      distinctTexts (texts.map .text)) = distinctTexts values ∧
    ∀ more, distinctTexts (values ++ more) = (do
      let texts ← distinctTexts values
      let others ← distinctTexts more
      distinctTexts ((texts ++ others).map .text)) :=
  ⟨exists_distinctTexts_iff_areShown values, fun _ => distinctTexts_eq_ok_iff,
    distinctTexts_distinctTexts values, distinctTexts_append values⟩

/-- A truth value and a text share a text, and what is missing does not. -/
example : distinctTexts [.null, .bool true, .float .nan, .text "None", .text "True", .text "nan"] =
    .ok ["True", "None", "nan"] :=
  rfl

end FilterQuery.Suggestion
