import FilterQuery.Proofs.Formula.Filter
import Mathlib.Tactic.TFAE

/-!
# Views agree on what is empty

The query document of a filter, its two previews, what is left of it when it is pruned and its
submission come from walks of their own, each of which decides by itself what is there.  Each of
them is empty exactly where the filter has no formula, so they are empty together.  Where they are
not, the document of what was left is that of the whole filter.

Main results:

- `Node.prune_eq_none_iff`: nothing is left of a node exactly when it has no formula.
- `Style.write_ne_empty`: a formula of texts that can be seen is shown as a text that can be seen.
- `views_agree`: all views of a filter are empty together, and its submission has its document.
-/

namespace FilterQuery

open Number

/-! ## What is left of a node -/

namespace Formula

/-- Only of no formulas at all nothing is joined. -/
theorem join_eq_none_iff {α : Type} (relation : Relation) (formulas : List (Formula α)) :
    join relation formulas = none ↔ formulas = [] := by
  match formulas with
  | [] => simp
  | [formula] => simp
  | first :: second :: rest => simp [join_cons_cons]

end Formula

namespace Node

/-- Nothing is left of a node exactly when it has no formula. -/
theorem prune_eq_none_iff (node : Node) : node.prune = none ↔ node.formula? = none := by
  induction node with
  | leaf l =>
      rw [prune, formula?_leaf, Condition.isUsable]
      cases l.condition.comparison? <;> simp
  | group id relation children ih =>
      rw [prune_group, regroup_eq_none_iff, formula?_group, Formula.join_eq_none_iff,
        List.filterMap_eq_nil_iff, List.filterMap_eq_nil_iff]
      exact forall₂_congr ih

end Node

/-! ## Texts that can be seen -/

/-- The label of a condition is not empty, whatever its field is called. -/
theorem Condition.label_ne_empty {c : Condition} {text : String} (h : c.label = .ok text) :
    text ≠ "" := by
  rcases Traversal.map_eq_ok_iff.mp h with ⟨compared, _, rfl⟩
  simp

namespace Style

/-- Whether everything that is shown in a style can be seen. -/
structure Visible (style : Style) : Prop where
  condition : ∀ {c : Condition} {text : String}, style.condition c = .ok text → text ≠ ""
  group : ∀ inner, style.group inner ≠ ""

/-- Plain text can be seen. -/
theorem visible_plain : plain.Visible where
  condition {c text} h := by
    rcases Traversal.map_eq_ok_iff.mp h with ⟨label, hlabel, rfl⟩
    have hseen := Condition.label_ne_empty hlabel
    by_cases hnegated : c.isNegated = true
    · simp [hnegated]
    · simpa [hnegated] using hseen
  group inner := by simp [plain]

/-- A text in a tag can be seen, even if it is empty itself. -/
theorem span_ne_empty (kind content : String) : span kind content ≠ "" := by
  have hclosing : "</span>" ≠ "" := by decide
  intro h
  exact hclosing (String.append_eq_empty_iff.mp h).2

/-- Markup can be seen. -/
theorem visible_markup : markup.Visible where
  condition {c text} h := by
    rcases Traversal.map_eq_ok_iff.mp h with ⟨label, _, rfl⟩
    by_cases hnegated : c.isNegated = true
    · simp [hnegated]
    · simpa [hnegated] using span_ne_empty _ _
  group inner := span_ne_empty "group" ("(" ++ inner ++ ")")

variable {style : Style}

/-- A formula of texts that can be seen is shown as a text that can be seen. -/
theorem write_ne_empty (hstyle : style.Visible) {formula : Formula String}
    (halternating : formula.Alternating) (hatoms : ∀ text ∈ formula.atoms, text ≠ "") :
    style.write formula ≠ "" := by
  induction formula with
  | atom text =>
      rw [write_atom]
      exact hatoms text (List.mem_singleton_self text)
  | junction relation parts ih =>
      rcases halternating with _ | ⟨two_le, changes, inside⟩
      match parts, two_le with
      | first :: second :: rest, _ =>
          have hfirst : style.write first ≠ "" :=
            ih first (by simp) (inside first (by simp)) fun text htext => by
              apply hatoms
              rw [Formula.atoms_junction]
              exact List.mem_flatMap.mpr ⟨first, by simp, htext⟩
          have hpart : style.writePart first ≠ "" := by
            unfold writePart
            split
            · exact hstyle.group _
            · exact hfirst
          rw [write_junction, List.map_cons, List.map_cons, String.intercalate_cons_cons]
          simp [hpart]

/-- So is a formula inside of another text. -/
theorem writeWithin_ne_empty (hstyle : style.Visible) (outer : Option Relation)
    {formula : Formula String} (hseen : style.write formula ≠ "") :
    style.writeWithin outer formula ≠ "" := by
  unfold writeWithin
  split
  · split
    · exact hseen
    · exact hstyle.group _
  · exact hseen

end Style

/-! ## Documents -/

/-- The document of a clause does not find everything. -/
theorem queryDocument_eq_matchAll_iff (clause : Option Clause) :
    queryDocument clause = matchAll ↔ clause = none := by
  cases clause with
  | none => exact iff_of_true rfl rfl
  | some clause =>
      refine iff_of_false ?_ (Option.some_ne_none clause)
      cases clause with
      | primitive p => cases p <;> simp [queryDocument, matchAll, Clause.document,
          Primitive.document, Value.single]
      | negation p => simp [queryDocument, matchAll, Clause.document, Value.single]
      | junction relation parts =>
          cases relation <;> simp [queryDocument, matchAll, Clause.document, Relation.document,
            Value.single]

/-! ## Views of filters -/

namespace Filter

variable {filter : Filter} {default : Relation} {document : Value}

/-- A filter finds everything exactly when it has no formula. -/
theorem document_eq_matchAll_iff (h : filter.document default = .ok document) :
    document = matchAll ↔ filter.formula? default = none := by
  rcases Traversal.map_eq_ok_iff.mp h with ⟨clause, hclause, rfl⟩
  rw [clause?_eq] at hclause
  rcases Traversal.map_eq_ok_iff.mp hclause with ⟨read, hread, rfl⟩
  rw [queryDocument_eq_matchAll_iff, Option.map_eq_none_iff]
  cases hformula : filter.formula? default with
  | none =>
      rw [hformula] at hread
      rcases Except.ok.inj hread with rfl
      exact iff_of_true rfl rfl
  | some formula =>
      rw [hformula, Option.mapM_some] at hread
      rcases Traversal.map_eq_ok_iff.mp hread with ⟨result, _, rfl⟩
      exact iff_of_false (Option.some_ne_none result) (Option.some_ne_none formula)

/-- A filter is shown as the empty text exactly when it has no formula. -/
theorem preview_eq_empty_iff {style : Style} (hstyle : style.Visible) {ambient : Option Relation}
    {text : String} (h : filter.preview style default ambient = .ok text) :
    text = "" ↔ filter.formula? default = none := by
  rw [preview_eq] at h
  rcases Traversal.map_eq_ok_iff.mp h with ⟨written, hwritten, rfl⟩
  cases hformula : filter.formula? default with
  | none =>
      rw [hformula] at hwritten
      rcases Except.ok.inj hwritten with rfl
      exact iff_of_true rfl rfl
  | some formula =>
      rw [hformula, Option.mapM_some] at hwritten
      rcases Traversal.map_eq_ok_iff.mp hwritten with ⟨result, hresult, rfl⟩
      have hatoms : ∀ atom ∈ result.atoms, atom ≠ "" := by
        intro atom hatom
        rcases Formula.exists_mem_atoms_of_traverse hresult hatom with ⟨_, _, hcondition⟩
        exact hstyle.condition hcondition
      have hseen : style.write result ≠ "" :=
        Style.write_ne_empty hstyle ((alternating_of_formula? hformula).of_traverse hresult) hatoms
      exact iff_of_false (Style.writeWithin_ne_empty hstyle _ hseen) (Option.some_ne_none formula)

/-- Nothing of a filter can be used exactly when it has no formula. -/
theorem usable?_eq_none_iff (default : Relation) (filter : Filter) :
    filter.usable? = none ↔ filter.formula? default = none := by
  cases filter with
  | tree root =>
      cases root with
      | none => exact iff_of_true rfl rfl
      | some node =>
          rw [usable?, Option.map_eq_none_iff]
          exact node.prune_eq_none_iff
  | rows rs =>
      rw [usable?, formula?, ← Rows.map_fst_compared]
      cases Rows.compared rs with
      | nil => exact iff_of_true rfl rfl
      | cons item rest => exact iff_of_false (Option.some_ne_none _) (Option.some_ne_none _)

/-- A filter that has a document is submitted with it, unless nothing of it can be used. -/
theorem submit_of_document (h : filter.document default = .ok document) (label : Option String) :
    ∃ submission, filter.submit default label = .ok submission ∧
      submission.map Submission.filters = filter.usable? ∧
      ∀ sent ∈ submission, sent.document = document := by
  have hkept := document_usable? default filter
  rw [h] at hkept
  cases husable : filter.usable? with
  | none => exact ⟨none, by simp [submit, husable], rfl, by simp⟩
  | some kept =>
      rw [husable, Option.map_some, Option.getD_some] at hkept
      refine ⟨some ⟨kept, label.filter fun text => !text.isEmpty, document⟩, ?_, rfl, ?_⟩
      · simp [submit, husable, hkept, Except.map]
      · rintro sent ⟨⟩
        rfl

/-- What a filter is compiled to and shown as. -/
structure Views (default : Relation) (ambient : Option Relation) (filter : Filter)
    (document : Value) (text markup : String) : Prop where
  document : filter.document default = .ok document
  text : filter.preview .plain default ambient = .ok text
  markup : filter.preview .markup default ambient = .ok markup

variable {ambient : Option Relation} {text markup : String}

/-- The views of a filter are empty exactly when nothing of it can be used. -/
theorem Views.empty_tfae (h : filter.Views default ambient document text markup)
    {submission : Option Submission} {nothing : Prop}
    (hnothing : filter.usable? = none ↔ nothing)
    (hfilters : submission.map Submission.filters = filter.usable?) :
    [document = matchAll, text = "", markup = "", nothing, submission = none].TFAE := by
  rw [usable?_eq_none_iff default] at hnothing
  tfae_have 1 ↔ 4 := (document_eq_matchAll_iff h.document).trans hnothing
  tfae_have 2 ↔ 4 := (preview_eq_empty_iff Style.visible_plain h.text).trans hnothing
  tfae_have 3 ↔ 4 := (preview_eq_empty_iff Style.visible_markup h.markup).trans hnothing
  tfae_have 5 ↔ 4 := by
    rw [← hnothing, ← usable?_eq_none_iff default, ← hfilters, Option.map_eq_none_iff]
  tfae_finish

/-- Where a filter is compiled and shown, it is also submitted, and all of this is empty together:
the document finds everything, both previews are the empty text, nothing is left of the pruned tree
or of the rows, and there is no submission.  Otherwise the submission has the document of the whole
filter, and holds the pruned tree, or the usable rows with only the relation of the first one taken
away. -/
theorem views_agree (default : Relation) (ambient : Option Relation) (label : Option String) :
    (∀ root document text markup, (tree root).Views default ambient document text markup →
      ∃ submission, (tree root).submit default label = .ok submission ∧
        [document = matchAll, text = "", markup = "", root.bind Node.prune = none,
          submission = none].TFAE ∧
        ∀ sent ∈ submission, sent.document = document ∧
          ∃ kept, root.bind Node.prune = some kept ∧ sent.filters = tree (some kept)) ∧
    ∀ rs document text markup, (rows rs).Views default ambient document text markup →
      ∃ submission, (rows rs).submit default label = .ok submission ∧
        [document = matchAll, text = "", markup = "", Rows.usable rs = [],
          submission = none].TFAE ∧
        ∀ sent ∈ submission, sent.document = document ∧
          sent.filters = rows (Rows.withBase (Rows.usable rs)) := by
  constructor
  · intro root document text markup hviews
    rcases submit_of_document hviews.document label with ⟨submission, hsubmit, hfilters, hsent⟩
    refine ⟨submission, hsubmit, hviews.empty_tfae Option.map_eq_none_iff hfilters, ?_⟩
    intro sent hmem
    rw [hmem] at hfilters
    rcases Option.map_eq_some_iff.mp hfilters.symm with ⟨kept, hkept, hsame⟩
    exact ⟨hsent sent hmem, kept, hkept, hsame.symm⟩
  · intro rs document text markup hviews
    rcases submit_of_document hviews.document label with ⟨submission, hsubmit, hfilters, hsent⟩
    have hnothing : (rows rs).usable? = none ↔ Rows.usable rs = [] := by
      rw [usable?]
      cases Rows.usable rs <;> simp
    refine ⟨submission, hsubmit, hviews.empty_tfae hnothing hfilters, ?_⟩
    intro sent hmem
    refine ⟨hsent sent hmem, ?_⟩
    rw [hmem, usable?] at hfilters
    cases hkept : Rows.usable rs with
    | nil => simp [hkept] at hfilters
    | cons row rest =>
        rw [hkept] at hfilters
        exact Option.some.inj hfilters

/-- A condition that was not filled in and a group of nothing leave no trace in any view, neither in
a tree nor among rows: what is submitted is the rest, with the document of the whole. -/
theorem empty_parts_are_left_out :
    let host : Condition := { id := "a", field := "host", operator := some .present }
    let user : Condition := { id := "b", field := "user", operator := some .absent }
    let begun : Condition := { id := "c", field := "bytes", operator := some .equal }
    let document := queryDocument (some (.junction .or
      [.primitive (.present "host"), .negation (.present "user")]))
    let text := "host: exists OR NOT user: exists"
    let markup := "<span class=\"preview-field\">host: exists</span> " ++
      "<span class=\"preview-operator\">OR</span> <span class=\"preview-not\">NOT</span> " ++
      "<span class=\"preview-field\">user: exists</span>"
    let root : Node := .group "g" .or [.leaf (.plain begun),
      .group "h" .and [.leaf (.plain host), .group "i" .or []], .leaf (.plain user)]
    let pruned : Node := .group "g" .or [.leaf (.plain host), .leaf (.plain user)]
    let listed := [begun.toRow none, host.toRow (some .and), user.toRow (some .or)]
    let kept := [host.toRow none, user.toRow (some .or)]
    ((tree (some root)).Views .and none document text markup ∧ ∃ sent,
      (tree (some root)).submit .and none = .ok (some sent) ∧
        sent.document = document ∧ sent.filters = tree (some pruned)) ∧
    (rows listed).Views .and none document text markup ∧ ∃ sent,
      (rows listed).submit .and none = .ok (some sent) ∧
        sent.document = document ∧ sent.filters = rows kept := by
  intro host user begun document text markup root pruned listed kept
  have hroot : (tree (some root)).Views .and none document text markup :=
    { document := rfl
      text := by simp only [root, text, host, user, begun]; decide +kernel
      markup := by simp only [root, markup, host, user, begun]; decide +kernel }
  have hlisted : (rows listed).Views .and none document text markup :=
    { document := rfl
      text := by simp only [listed, text, host, user, begun]; decide +kernel
      markup := by simp only [listed, markup, host, user, begun]; decide +kernel }
  have hfound : document ≠ matchAll := by
    rw [Ne, queryDocument_eq_matchAll_iff]
    exact Option.some_ne_none _
  rcases views_agree .and none none with ⟨htree, hrows⟩
  constructor
  · rcases htree _ _ _ _ hroot with ⟨submission, hsubmit, hempty, hsent⟩
    cases submission with
    | none => exact absurd ((hempty.out 4 0).mp rfl) hfound
    | some sent =>
        rcases hsent sent rfl with ⟨hdocument, left, hleft, hfilters⟩
        rcases Option.some.inj (hleft.symm.trans (rfl : _ = some pruned)) with rfl
        exact ⟨hroot, sent, hsubmit, hdocument, hfilters⟩
  · rcases hrows _ _ _ _ hlisted with ⟨submission, hsubmit, hempty, hsent⟩
    cases submission with
    | none => exact absurd ((hempty.out 4 0).mp rfl) hfound
    | some sent => exact ⟨hlisted, sent, hsubmit, hsent sent rfl⟩

end Filter

end FilterQuery
