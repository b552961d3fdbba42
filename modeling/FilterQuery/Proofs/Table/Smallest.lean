import FilterQuery.Proofs.Suggestion
import FilterQuery.Proofs.Table.Fields

/-!
# The smallest values of a column

What is suggested from a table are the smallest texts of a column that contain the search term, by
the numbers of their characters and whatever the case of their letters.  They come in ascending
order, and as many as are asked for as long as there are so many.  So a larger size adds texts at
the end and changes nothing before them.

Main results:

- `mem_matching_iff`, `pairwise_ascending`: which texts are found, and in which order.
- `areSmallest_take`: the first texts of those in ascending order are the smallest ones.
- `suggests_smallest`: what is suggested from a table.
-/

namespace FilterQuery

/-! ## Texts that contain a search term -/

namespace Table

/-- Whether a text contains a search term, without its padding and whatever the case of letters. -/
def Contains (term : Option String) (text : String) : Prop :=
  (Text.upper (Text.trim (term.getD ""))).toList <:+: (Text.upper text).toList

/-- A text contains a search term where it is found in upper case. -/
theorem containsTerm_iff {sought text : String} :
    containsTerm sought text = true ↔
      (Text.upper sought).toList <:+: (Text.upper text).toList := by
  rw [containsTerm, Text.occursIn_iff]
  exact exists_congr fun before => exists_congr fun after => eq_comm

/-- The texts that are found are those that contain the search term. -/
theorem mem_matching_iff {term : Option String} {texts : List String} {text : String} :
    text ∈ matching term texts ↔ text ∈ texts ∧ Contains term text := by
  unfold matching Contains
  dsimp only
  split
  · next hempty =>
      rw [String.isEmpty_iff] at hempty
      rw [hempty]
      exact (and_iff_left (List.nil_infix)).symm
  · rw [List.mem_filter, containsTerm_iff]

/-! ## Texts in ascending order -/

/-- The texts in ascending order are the same texts. -/
theorem mem_ascending_iff {texts : List String} {text : String} :
    text ∈ ascending texts ↔ text ∈ texts := by
  rw [ascending, List.mem_mergeSort, Suggestion.mem_foldl_insertText]
  simp

/-- The texts in ascending order ascend strictly. -/
theorem pairwise_ascending (texts : List String) : (ascending texts).Pairwise (· < ·) := by
  let below (a b : String) := decide (a ≤ b)
  have htrans (a b c : String) (hab : below a b = true) (hbc : below b c = true) :
      below a c = true :=
    decide_eq_true (String.le_trans (of_decide_eq_true hab) (of_decide_eq_true hbc))
  have htotal (a b : String) : (below a b || below b a) = true := by
    simpa [below] using String.le_total a b
  have hsorted := List.pairwise_mergeSort htrans htotal (texts.foldl Suggestion.insertText [])
  have hnodup : (ascending texts).Nodup :=
    (List.mergeSort_perm _ _).nodup_iff.mpr (Suggestion.nodup_foldl_insertText .nil texts)
  refine (hsorted.and hnodup).imp ?_
  rintro first second ⟨hle, hne⟩
  exact String.not_le.mp fun hge => hne (String.le_antisymm (of_decide_eq_true hle) hge)

/-! ## The smallest texts -/

/-- Whether texts are the smallest of those that are wanted: they ascend, they are no more than
`count`, and what is wanted and left out is larger than all of them and left out only because there
are `count` of them. -/
structure AreSmallest (texts : List String) (wanted : String → Prop) (count : Int)
    (found : List String) : Prop where
  ascending : found.Pairwise (· < ·)
  length_le : found.length ≤ count
  of_mem : ∀ text ∈ found, text ∈ texts ∧ wanted text
  of_not_mem : ∀ text ∈ texts, wanted text → text ∉ found →
    (∀ other ∈ found, other < text) ∧ count ≤ found.length

/-- The first texts of those that are wanted, in ascending order, are the smallest ones. -/
theorem areSmallest_take {texts sorted : List String} {wanted : String → Prop}
    (hsorted : sorted.Pairwise (· < ·))
    (hmem : ∀ text, text ∈ sorted ↔ text ∈ texts ∧ wanted text) {count : Int} (h : 0 ≤ count) :
    AreSmallest texts wanted count (sorted.take count.toNat) where
  ascending := hsorted.sublist (List.take_sublist _ _)
  length_le := by
    have hlength := List.length_take_le count.toNat sorted
    omega
  of_mem text htext := (hmem text).mp (List.mem_of_mem_take htext)
  of_not_mem text htext hwanted hnot := by
    have hin : text ∈ sorted := (hmem text).mpr ⟨htext, hwanted⟩
    rw [← List.take_append_drop count.toNat sorted] at hin hsorted
    have hdrop : text ∈ sorted.drop count.toNat := (List.mem_append.mp hin).resolve_left hnot
    refine ⟨fun other hother => (List.pairwise_append.mp hsorted).2.2 other hother text hdrop, ?_⟩
    -- What was left out stands behind the first texts, so there are as many of these as asked for.
    have hlength := List.length_pos_of_mem hdrop
    rw [List.length_drop] at hlength
    rw [List.length_take]
    omega

/-! ## Suggestions from a table -/

/-- A lookup in a table, which finds texts. -/
def source (table : Table) (request : Suggestion.Request) : Id (Except Error (List Value)) :=
  (table.lookup request.field request.term (some request.size)).map fun texts =>
    texts.map Value.text

/-- At least one text is asked for, and the first ones are given. -/
theorem firstTexts_clampSize (settings : Settings) (size : Option Int) (texts : List String) :
    firstTexts (some (Suggestion.clampSize settings size)) texts =
      texts.take (Suggestion.clampSize settings size).toNat := by
  have hsize := (Suggestion.clampSize_bounds settings size).1
  exact if_pos (by omega)

variable {settings : Settings} {table : Table} {column : Column} {texts : List String}
  {field : String} {operator : Option Operator} {term : Option String} {context : Input}

/-- A table gives the first texts of a column that contain the search term, in ascending order. -/
theorem suggest_source {usable : Option Value}
    (hwants : Suggestion.wantsValues field operator = true)
    (hcontext : Intake.context? context = .ok usable) (hcolumn : table.column? field = some column)
    (htexts : column.texts = .ok texts) (size : Option Int) :
    (Suggestion.suggest settings table.source field operator term size context).run =
      .ok (.success
        ((ascending (matching term texts)).take (Suggestion.clampSize settings size).toNat)
        (Suggestion.contextWarnings field context usable)) := by
  let found := (ascending (matching term texts)).take (Suggestion.clampSize settings size).toNat
  have hlookup : table.source (Suggestion.request settings field term size usable) =
      .ok (found.map Value.text) := by
    rw [source, lookup_eq]
    dsimp only [Suggestion.request]
    rw [hcolumn, Option.elim_some, Column.lookup, htexts]
    dsimp only
    rw [firstTexts_clampSize]
    rfl
  have hnodup : found.Nodup :=
    ((pairwise_ascending _).imp fun h heq => absurd (heq ▸ h) (String.lt_irrefl _)).sublist
      (List.take_sublist _ _)
  have hdistinct : Suggestion.distinctTexts (found.map Value.text) = .ok found :=
    Suggestion.distinctTexts_of_nodup hnodup
  rw [Suggestion.suggest_of_wants hwants, hcontext]
  dsimp only
  rw [hlookup]
  exact congrArg (Except.map _) hdistinct

/-- Suggestions from a table are the smallest values of the column that an exact field stands for.
Of the texts of the column those are given that contain the search term, whatever the case of their
letters: the smallest ones, in ascending order, and as many as the size allows.  If more are asked
for, more are given behind them. -/
theorem suggests_smallest (settings : Settings) (term : Option String) (size : Option Int)
    (hwants : Suggestion.wantsValues field operator = true)
    (hcontext : Intake.ReadsInLimit context) (hcolumn : table.column? field = some column)
    (htexts : column.texts = .ok texts) :
    ∃ data warnings,
      (Suggestion.suggest settings table.source field operator term size context).run =
        .ok (.success data warnings) ∧
      AreSmallest texts (Contains term) (Suggestion.clampSize settings size) data ∧
      ∀ larger : Option Int,
        size.getD settings.suggestDefaultSize ≤ larger.getD settings.suggestDefaultSize →
          ∃ more,
            (Suggestion.suggest settings table.source field operator term larger context).run =
              .ok (.success (data ++ more) warnings) := by
  obtain ⟨usable, hcontext⟩ := (Intake.exists_context?_iff context).mpr hcontext
  let sorted := ascending (matching term texts)
  let count := Suggestion.clampSize settings size
  have hmem (text : String) : text ∈ sorted ↔ text ∈ texts ∧ Contains term text :=
    mem_ascending_iff.trans mem_matching_iff
  have hcount : 1 ≤ count := (Suggestion.clampSize_bounds settings size).1
  refine ⟨sorted.take count.toNat, _, suggest_source hwants hcontext hcolumn htexts size,
    areSmallest_take (pairwise_ascending _) hmem (by omega), ?_⟩
  intro larger hlarger
  have hclamp : count ≤ Suggestion.clampSize settings larger := by
    simp only [count, Suggestion.clampSize]
    omega
  have hfirst : sorted.take count.toNat <+:
      sorted.take (Suggestion.clampSize settings larger).toNat :=
    List.take_prefix_take_left (Int.toNat_le_toNat hclamp)
  obtain ⟨more, hmore⟩ := hfirst
  refine ⟨more, ?_⟩
  rw [suggest_source hwants hcontext hcolumn htexts larger, ← hmore]

/-- Of four hosts, one of which is missing and one of which occurs twice, the first web server is
suggested if a single one is asked for, and both are if there is room. -/
theorem suggests_smallest_of_hosts :
    let hosts := Column.ofCells "host" [.text "web02", .text "db01", .null, .text "web01",
      .text "web02"]
    let texts := ["web02", "db01", "web01", "web02"]
    let suggested (size : Option Int) :=
      (Suggestion.suggest {} (source [hosts]) "host.keyword" (some .equal) (some " WEB ") size
        .null).run
    Suggestion.wantsValues "host.keyword" (some .equal) = true ∧
    Intake.ReadsInLimit .null ∧ column? [hosts] "host.keyword" = some hosts ∧
    hosts.texts = .ok texts ∧
    ∃ data warnings, suggested (some 1) = .ok (.success data warnings) ∧
      AreSmallest texts (Contains (some " WEB ")) 1 data ∧
      ∃ more, suggested none = .ok (.success (data ++ more) warnings) := by
  intro hosts texts suggested
  have hwants : Suggestion.wantsValues "host.keyword" (some .equal) = true := by decide
  have hcontext : Intake.ReadsInLimit .null := Intake.readsInLimit_of_unset rfl
  have hcolumn : column? [hosts] "host.keyword" = some hosts := rfl
  have htexts : hosts.texts = .ok texts := rfl
  obtain ⟨data, warnings, hdata, hsmallest, hmore⟩ :=
    suggests_smallest {} (some " WEB ") (some 1) hwants hcontext hcolumn htexts
  exact ⟨hwants, hcontext, hcolumn, htexts, data, warnings, hdata, hsmallest,
    hmore none (by decide)⟩

end Table

end FilterQuery
