import FilterQuery.Filter.Preview
import FilterQuery.Proofs.CoercedValues
import FilterQuery.Proofs.TypedValues

/-!
# What a label shows of the values

The label of a condition and its clause are made of the same values in two ways.  Of a range both
leave out the bounds that were not filled in, so the label names exactly the bounds that the query
has.  Of several values the clause leaves out what is nothing and the empty text, but the label
shows the whole list: nothing as a word of its own, and the empty text as a gap between two commas.

Main results:

- `Coercion.intercalate_given_iff`: a list is shown as the values that it stands for exactly if
  nothing in it is left out.
- `Condition.label_of_entries`: the label of a condition for several values.
- `Condition.label_of_range`: the label of a range, bound by bound.
- `Condition.label_shows_carried_unless`: when a label shows exactly the values of the query.
-/

namespace FilterQuery

open Number

/-! ## Lists of texts in which some are missing -/

/-- A text in a list of values, or nothing where it is missing. -/
def Value.ofEntry : Option String → Value
  | some s => .text s
  | none => .null

/-- The text in which an entry of a list is shown. -/
def Value.entryText (entry : Option String) : String :=
  entry.getD "None"

namespace Coercion

/-- The entries that were filled in: the texts that are not empty. -/
def givenEntries (entries : List (Option String)) : List String :=
  entries.filterMap fun entry => entry.filter fun s => !s.isEmpty

@[simp]
theorem givenEntries_nil : givenEntries [] = [] :=
  rfl

/-- A missing entry was not filled in. -/
@[simp]
theorem givenEntries_none (rest : List (Option String)) :
    givenEntries (none :: rest) = givenEntries rest :=
  rfl

/-- The empty text was not filled in. -/
@[simp]
theorem givenEntries_empty (rest : List (Option String)) :
    givenEntries (some "" :: rest) = givenEntries rest :=
  rfl

/-- Any other text was. -/
theorem givenEntries_some {s : String} (h : s ≠ "") (rest : List (Option String)) :
    givenEntries (some s :: rest) = s :: givenEntries rest := by
  have hkept : (some s).filter (fun s => !s.isEmpty) = some s := by simpa using h
  rw [givenEntries, List.filterMap_cons_some hkept, ← givenEntries]

/-- A list stands for its entries that were filled in. -/
theorem asList_entries (entries : List (Option String)) :
    asList (.list (entries.map Value.ofEntry)) = (givenEntries entries).map Value.text := by
  rw [asList]
  induction entries with
  | nil => rfl
  | cons entry rest ih =>
      cases entry with
      | none => simpa [Value.ofEntry, Value.isUnset] using ih
      | some s =>
          by_cases hempty : s = ""
          · subst hempty
            simpa [Value.ofEntry, Value.isUnset] using ih
          · rw [givenEntries_some hempty, List.map_cons, List.map_cons, ← ih]
            simp [Value.ofEntry, Value.isUnset, hempty]

/-- Texts that are joined by commas are as long as they are one by one, each with a comma of its
own but for the last one. -/
theorem length_intercalate_comma {texts : List String} (h : texts ≠ []) :
    (String.intercalate "," texts).length + 1 = (texts.map fun s => s.length + 1).sum := by
  induction texts with
  | nil => contradiction
  | cons first rest ih =>
      cases rest with
      | nil => simp
      | cons second others =>
          have hrest := ih (List.cons_ne_nil second others)
          rw [String.intercalate_cons_cons, List.map_cons, List.sum_cons, ← hrest,
            String.length_append, String.length_append]
          have hcomma : ",".length = 1 := rfl
          omega

/-- What is shown of a list is longer than its entries that were filled in, by a comma at least for
every other entry. -/
theorem length_givenEntries_add_le (entries : List (Option String)) :
    ((givenEntries entries).map fun s => s.length + 1).sum +
        entries.countP (fun entry => entry = none ∨ entry = some "") ≤
      ((entries.map Value.entryText).map fun s => s.length + 1).sum := by
  induction entries with
  | nil => simp
  | cons entry rest ih =>
      rw [List.map_cons, List.map_cons, List.sum_cons, List.countP_cons]
      cases entry with
      | none =>
          rw [givenEntries_none, if_pos (by simp)]
          omega
      | some s =>
          by_cases hempty : s = ""
          · subst hempty
            rw [givenEntries_empty, if_pos (by simp)]
            omega
          · rw [givenEntries_some hempty, if_neg (by simpa using hempty), List.map_cons,
              List.sum_cons, Value.entryText, Option.getD_some]
            omega

/-- If nothing and the empty text do not stand in a list, every entry was filled in. -/
theorem givenEntries_eq_map {entries : List (Option String)}
    (h : none ∉ entries ∧ some "" ∉ entries) :
    givenEntries entries = entries.map Value.entryText := by
  induction entries with
  | nil => rfl
  | cons entry rest ih =>
      simp only [List.mem_cons, not_or] at h
      cases entry with
      | none => exact absurd rfl h.1.1
      | some s =>
          have hsome : s ≠ "" := by
            intro hempty
            exact h.2.1 (by rw [hempty])
          rw [givenEntries_some hsome, ih ⟨h.1.2, h.2.2⟩]
          rfl

/-- A list that stands for some value is shown as the values that it stands for exactly if nothing
and the empty text do not stand in it. -/
theorem intercalate_given_iff {entries : List (Option String)} (h : givenEntries entries ≠ []) :
    String.intercalate "," (entries.map Value.entryText) =
        String.intercalate "," (givenEntries entries) ↔
      none ∉ entries ∧ some "" ∉ entries := by
  constructor
  · intro hsame
    have hentries : entries.map Value.entryText ≠ [] := by
      intro hnil
      rw [List.map_eq_nil_iff.mp hnil] at h
      exact h rfl
    have hbound := length_givenEntries_add_le entries
    rw [← length_intercalate_comma h, ← length_intercalate_comma hentries, hsame] at hbound
    have hzero : entries.countP (fun entry => entry = none ∨ entry = some "") = 0 := by omega
    rw [List.countP_eq_zero] at hzero
    constructor
    · intro hnone
      exact hzero none hnone (by simp)
    · intro hempty
      exact hzero (some "") hempty (by simp)
  · intro hfilled
    rw [givenEntries_eq_map hfilled]

end Coercion

namespace Condition

/-! ## Labels of several values -/

/-- The label of a condition for several values shows its value. -/
theorem label_of_many {c : Condition} {op : Operator} (hop : c.operator = some op)
    (hmany : op = .oneOf ∨ op = .noneOf) :
    c.label = (fun text => c.field ++ ": " ++ text) <$> Coercion.displayGiven c.value := by
  rw [label, comparedWith, hop]
  rcases hmany with rfl | rfl
  · rfl
  · rfl

/-- The label of a condition for several values that are given as a list of texts, some of which may
be missing. -/
theorem label_of_entries {c : Condition} {op : Operator} (hop : c.operator = some op)
    (hmany : op = .oneOf ∨ op = .noneOf) {entries : List (Option String)}
    (hvalue : c.value = .list (entries.map Value.ofEntry)) :
    c.label =
      .ok (c.field ++ ": " ++ String.intercalate "," (entries.map Value.entryText)) := by
  have hdisplay : ∀ entry : Option String,
      (Value.ofEntry entry).display = .ok (Value.entryText entry) := by
    intro entry
    cases entry with
    | none => rfl
    | some s => rfl
  rw [label_of_many hop hmany, hvalue, Coercion.displayGiven_list hdisplay]
  rfl

/-! ## Labels of ranges -/

/-- The bound of a condition at one end of a range. -/
def bound (c : Condition) : Side → Bound
  | .lower => c.lower
  | .upper => c.upper

/-- The ends of a range at which a bound was filled in, the lower one first. -/
def givenSides (c : Condition) : List Side :=
  [.lower, .upper].filter fun side => !(c.bound side).limit.isBlank

/-- The bound at one end in words, with its limit as it was filled in. -/
def boundLabel (c : Condition) (side : Side) : Except DigitLimit String :=
  (fun text => (c.bound side).phrase side ++ " " ++ text) <$> (c.bound side).limit.display

/-- The name of the bound at one end in a query. -/
def boundName (c : Condition) (side : Side) : String :=
  side.keyword (c.bound side).inclusive

/-- A bound was filled in at an end exactly if its limit is not blank. -/
theorem mem_givenSides_iff (c : Condition) (side : Side) :
    side ∈ c.givenSides ↔ (c.bound side).limit.isBlank = false := by
  rw [givenSides, List.mem_filter, Bool.not_eq_true']
  cases side with
  | lower => simp
  | upper => simp

/-- A range that can be used has a bound. -/
theorem givenSides_ne_nil {c : Condition} (hop : c.operator = some .range)
    (husable : c.isUsable = true) : c.givenSides ≠ [] := by
  obtain ⟨hready, _⟩ := clause?_of_isUsable hop husable
  rcases hready.bounded rfl with hlower | hupper
  · exact List.ne_nil_of_mem ((c.mem_givenSides_iff .lower).mpr hlower)
  · exact List.ne_nil_of_mem ((c.mem_givenSides_iff .upper).mpr hupper)

/-- Which ends of a range have a bound, by what was filled in. -/
theorem givenSides_eq (c : Condition) :
    c.givenSides = (if c.lower.limit.isBlank then [] else [.lower]) ++
      if c.upper.limit.isBlank then [] else [.upper] := by
  cases hlower : c.lower.limit.isBlank <;> cases hupper : c.upper.limit.isBlank <;>
    simp [givenSides, bound, hlower, hupper]

/-- The bounds that were filled in are put into words one after the other. -/
theorem mapM_boundLabel_givenSides (c : Condition) :
    c.givenSides.mapM c.boundLabel = do
      let lower ← c.lower.label? .lower
      let upper ← c.upper.label? .upper
      return lower.toList ++ upper.toList := by
  rw [givenSides_eq]
  unfold Bound.label?
  cases c.lower.limit.isBlank <;> cases c.upper.limit.isBlank <;>
    cases hlower : c.lower.limit.display <;> cases hupper : c.upper.limit.display <;>
    simp [boundLabel, bound, hlower, hupper, Except.map, bind, Except.bind, pure, Except.pure]

/-- The label of a range with a bound names the bounds that were filled in, in their order. -/
theorem label_of_range {c : Condition} (hop : c.operator = some .range)
    (hsome : c.givenSides ≠ []) :
    c.label = (fun parts => c.field ++ ": " ++ String.intercalate " and " parts) <$>
      c.givenSides.mapM c.boundLabel := by
  have hparts := c.mapM_boundLabel_givenSides
  rw [label, comparedWith, hop]
  dsimp only
  cases hlower : c.lower.label? .lower with
  | error limit =>
      rw [hparts, hlower]
      rfl
  | ok lower =>
      cases hupper : c.upper.label? .upper with
      | error limit =>
          rw [hparts, hlower, hupper]
          rfl
      | ok upper =>
          rw [hlower, hupper] at hparts
          have hlength := (Traversal.forall₂_of_mapM_eq_ok hparts).length_eq
          have hnonempty : ¬(lower.toList ++ upper.toList).isEmpty = true := by
            intro hempty
            rw [List.isEmpty_iff.mp hempty] at hlength
            exact hsome (List.length_eq_zero_iff.mp hlength)
          rw [hparts]
          change Except.ok (c.field ++ ": " ++ if _ then _ else _) = Except.ok _
          rw [if_neg hnonempty]

/-- The bound at an end of a range in a query has the name of the one that was filled in. -/
theorem map_fst_of_alikeEnds {related : Value → Value → Prop} {given carried : Option Bound}
    (h : Primitive.AlikeEnds related given carried) (side : Side) :
    (carried.map (Bound.document side)).toList.map Prod.fst =
      given.toList.map fun bound => side.keyword bound.inclusive := by
  cases h with
  | absent => rfl
  | present => rfl

/-- The names of the bounds that were filled in, by the ends of the range. -/
theorem map_boundName_givenSides (c : Condition) :
    c.givenSides.map c.boundName =
      (c.lower.given?.toList.map fun bound => Side.lower.keyword bound.inclusive) ++
        c.upper.given?.toList.map fun bound => Side.upper.keyword bound.inclusive := by
  cases hlower : c.lower.limit.isBlank <;> cases hupper : c.upper.limit.isBlank <;>
    simp [givenSides_eq, Bound.given?, bound, boundName, hlower, hupper]

/-- The bounds in the clause of a range have the names of those that were filled in. -/
theorem exists_document_of_between {c : Condition} {p : Primitive} (h : c.between = .ok p) :
    ∃ fields, p.document = .single "range" (.single c.field (.object fields)) ∧
      fields.map Prod.fst = c.givenSides.map c.boundName := by
  have halike := alike_of_between h
  rw [asGiven] at halike
  cases halike with
  | range field hlower hupper =>
      refine ⟨_, rfl, ?_⟩
      rw [List.map_append, map_fst_of_alikeEnds hlower, map_fst_of_alikeEnds hupper,
        map_boundName_givenSides]

/-! ## Labels and queries -/

/-- The label of a condition that can be used shows the values of its query, with one exception.

The label of a condition for several values, given as a list of texts of which some may be missing,
joins all of them by commas.  Its clause tests for the same texts, each of them coerced, but for
those that are missing or empty.  So the label shows exactly the values that the query carries if
none is missing or empty, and only then.

The label of a range names the same bounds as its clause, by the words for their kinds and in the
same order, the lower one first. -/
theorem label_shows_carried_unless {c : Condition} (husable : c.isUsable = true) :
    (∀ op entries, c.operator = some op → op = .oneOf ∨ op = .noneOf →
      c.value = .list (entries.map Value.ofEntry) →
      Coercion.asList c.value = (Coercion.givenEntries entries).map Value.text ∧
      c.clause? =
        (fun terms => some ((if op.negated then Clause.negation else Clause.primitive)
          (.terms c.field terms))) <$> (Coercion.asList c.value).mapM (Coercion.coerce c.field) ∧
      c.label =
        .ok (c.field ++ ": " ++ String.intercalate "," (entries.map Value.entryText)) ∧
      (c.label =
          .ok (c.field ++ ": " ++ String.intercalate "," (Coercion.givenEntries entries)) ↔
        none ∉ entries ∧ some "" ∉ entries)) ∧
    (c.operator = some .range →
      c.givenSides ≠ [] ∧
      ((∃ clause, c.clause? = .ok (some clause)) ↔ c.compilesInLimit = true) ∧
      (∀ clause, c.clause? = .ok (some clause) → ∃ fields,
        clause.document = .single "range" (.single c.field (.object fields)) ∧
          fields.map Prod.fst = c.givenSides.map c.boundName) ∧
      c.label = (fun parts => c.field ++ ": " ++ String.intercalate " and " parts) <$>
        c.givenSides.mapM c.boundLabel) := by
  constructor
  · intro op entries hop hmany hvalue
    obtain ⟨hgiven, hclause⟩ := clause?_of_many hop hmany husable
    have hlist : Coercion.asList c.value = (Coercion.givenEntries entries).map Value.text := by
      rw [hvalue, Coercion.asList_entries]
    have hlabel := label_of_entries hop hmany hvalue
    refine ⟨hlist, ?_, hlabel, ?_⟩
    · rw [hclause, membership]
      exact Functor.map_map ..
    · have hsome : Coercion.givenEntries entries ≠ [] := by
        intro hnil
        rw [hnil, List.map_nil, Coercion.asList_eq_nil_iff hgiven] at hlist
        obtain ⟨s, hs, _⟩ := hlist
        rw [hvalue] at hs
        contradiction
      rw [hlabel, ← Coercion.intercalate_given_iff hsome]
      rw [Except.ok.injEq, String.append_right_inj]
  · intro hop
    have hsome := givenSides_ne_nil hop husable
    obtain ⟨_, hclause⟩ := clause?_of_isUsable hop husable
    refine ⟨hsome, exists_clause?_iff husable, ?_, label_of_range hop hsome⟩
    intro clause h
    rw [hclause] at h
    obtain ⟨p, hp, hp'⟩ := Traversal.map_eq_ok_iff.mp h
    obtain rfl := Option.some.inj hp'
    exact exists_document_of_between hp

/-- Of a range with an upper bound only, that bound is named, in the label and in the query. -/
theorem label_shows_carried_unless_open :
    let c : Condition :=
      { id := "c", field := "bytes", operator := some .range, lower := ⟨true, .text " "⟩
        upper := ⟨true, .text "9"⟩ }
    c.isUsable = true ∧ c.label = .ok "bytes: Less Than/Equal To 9" ∧
      ∃ clause limit, c.clause? = .ok (some clause) ∧
        clause.document = .single "range" (.single "bytes" (.object [("lte", limit)])) := by
  intro c
  have husable : c.isUsable = true := by decide +kernel
  obtain ⟨-, hrange⟩ := label_shows_carried_unless husable
  obtain ⟨-, hexists, hclause, hlabel⟩ := hrange rfl
  refine ⟨husable, ?_, ?_⟩
  · rw [hlabel]
    rfl
  · obtain ⟨clause, h⟩ := hexists.mpr (by decide +kernel)
    obtain ⟨fields, hdocument, hnames⟩ := hclause clause h
    have hname : fields.map Prod.fst = ["lte"] := hnames
    obtain ⟨⟨name, limit⟩, rfl, hfield⟩ := List.map_eq_singleton_iff.mp hname
    obtain rfl : name = "lte" := hfield
    exact ⟨clause, limit, h, hdocument⟩

/-- A value that is missing in a list is shown as a word, but the query does not carry it. -/
theorem label_shows_missing_value :
    let c : Condition :=
      { id := "c", field := "verb.keyword", operator := some .oneOf
        value := .list [.text "GET", .null] }
    c.isUsable = true ∧ Coercion.asList c.value = [.text "GET"] ∧
      c.clause? = .ok (some (.primitive (.terms "verb.keyword" [.text "GET"]))) ∧
      c.label = .ok "verb.keyword: GET,None" ∧ c.label ≠ .ok "verb.keyword: GET" := by
  refine ⟨by decide +kernel, rfl, rfl, rfl, ?_⟩
  intro hlabel
  have hsame : "verb.keyword: GET,None" = "verb.keyword: GET" := Except.ok.inj hlabel
  revert hsame
  decide

end Condition

end FilterQuery
