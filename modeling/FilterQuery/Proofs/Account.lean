import FilterQuery.Filter
import FilterQuery.Proofs.Comparison
import FilterQuery.Proofs.Formula.Filter

/-!
# What becomes of every condition

Conditions are left out, groups are unwrapped and taken apart, and warnings are collected on the
way.  Nothing is lost in this and nothing is counted twice: a condition is one leaf clause of the
query document, or it is the subject of one warning, or it names no field or no operator yet.  The
leaf clauses and the warnings each stand in the order of the conditions.

The leaf clauses are read off the document alone, whatever it was made from.

Main results:

- `Compilation.Reports.bind`: a step after another adds its notices to those of the other.
- `Filter.compile_reports`: a filter reports its warnings, one for each condition that was begun.
- `Formula.leafClauses_clauseOf`: the leaf clauses of a query are the clauses of its atoms.
- `Filter.leafClauses_document`: those of a query document are the clauses of the usable conditions.
- `Accounts.length_eq`: leaf clauses, warnings and conditions not begun make up all conditions.
- `Filter.report_accounts_for_conditions`: a report accounts for every condition of its filter.
-/

namespace FilterQuery

open Number

/-! ## Notices of a compilation -/

namespace Compilation

variable {α β : Type}

/-- A compilation reports these notices whenever it gives a result. -/
def Reports (compilation : Compilation α) (notices : List Notice) : Prop :=
  ∀ a found, compilation.run = .ok (a, found) → found = notices

/-- A result by itself is reported without notices. -/
theorem reports_pure (a : α) : (pure a : Compilation α).Reports [] := by
  rintro b found ⟨⟩
  rfl

/-- What leaves nothing out reports nothing. -/
theorem reports_ofExcept (result : Except DigitLimit α) : (ofExcept result).Reports [] := by
  intro a found h
  rcases Traversal.map_eq_ok_iff.mp h with ⟨b, _, hb⟩
  exact (Prod.mk.inj hb).2.symm

/-- A note is reported unless it is about something that was not begun yet. -/
theorem reports_note (notice : Notice) :
    (note notice).Reports (if notice.isSilent then [] else [notice]) := by
  rintro _ found ⟨⟩
  rfl

/-- A step after another adds its notices to those of the other. -/
theorem Reports.bind {step : Compilation α} {next : α → Compilation β}
    {before after : List Notice} (hstep : step.Reports before)
    (hnext : ∀ a, (next a).Reports after) : (step >>= next).Reports (before ++ after) := by
  intro b found h
  obtain ⟨⟨a, first⟩, hfirst, h⟩ := Traversal.bind_eq_ok_iff.mp h
  obtain ⟨⟨b', second⟩, hsecond, h⟩ := Traversal.bind_eq_ok_iff.mp h
  obtain ⟨rfl, rfl⟩ := Prod.mk.inj (Except.ok.inj h)
  rw [hstep a first hfirst, hnext a b' second hsecond]

/-- What is done to a result leaves the notices alone. -/
theorem Reports.map {step : Compilation α} {notices : List Notice} (h : step.Reports notices)
    (f : α → β) : (f <$> step).Reports notices := by
  have hpure := h.bind fun a => reports_pure (f a)
  rwa [List.append_nil] at hpure

/-- The notices stand beside the result, if there is one. -/
theorem Reports.run_eq {compilation : Compilation α} {notices : List Notice}
    (h : compilation.Reports notices) :
    compilation.run = (·, notices) <$> compilation.value := by
  rw [value]
  cases hrun : compilation.run with
  | error e => rfl
  | ok result => rw [← h result.1 result.2 hrun]; rfl

end Compilation

/-! ## Conditions that were begun -/

/-- The codes of the notices about conditions that were begun and lack a value or a bound. -/
def Notice.shortfallCodes : List String :=
  ["missing_value", "missing_range_bound"]

namespace Condition

/-- What a condition that was begun still lacks. -/
def shortfall? (c : Condition) : Option Notice :=
  c.notice?.filter fun notice => notice.code ∈ Notice.shortfallCodes

/-- The notice of a condition tells whether the condition was begun. -/
theorem begun_iff_of_notice? {c : Condition} {notice : Notice} (h : c.notice? = some notice) :
    (notice.isSilent = false ↔ c.isComplete = true) ∧
      (notice.code ∈ Notice.shortfallCodes ↔ c.isComplete = true) := by
  have hchecked := c.checked_check
  rw [notice?] at h
  generalize c.check = found at h hchecked
  cases hchecked with
  | unnamed hfield =>
      rcases Option.some.inj h with rfl
      simp [isComplete, hfield, Notice.isSilent, Notice.code, Notice.shortfallCodes]
  | unstated _ hop =>
      rcases Option.some.inj h with rfl
      simp [isComplete, hop, Notice.isSilent, Notice.code, Notice.shortfallCodes]
  | valueless hfield hop =>
      rcases Option.some.inj h with rfl
      simp [isComplete, hfield, hop, Notice.isSilent, Notice.code, Notice.shortfallCodes]
  | boundless hfield hop =>
      rcases Option.some.inj h with rfl
      simp [isComplete, hfield, hop, Notice.isSilent, Notice.code, Notice.shortfallCodes]
  | ready hready => contradiction

/-- The warning about a condition says what the condition lacks. -/
theorem warning?_eq_shortfall? (c : Condition) : c.warning? = c.shortfall? := by
  cases h : c.notice? with
  | none => simp [warning?, shortfall?, h]
  | some notice =>
      obtain ⟨hsilent, hcode⟩ := begun_iff_of_notice? h
      have hsame : (!notice.isSilent) = decide (notice.code ∈ Notice.shortfallCodes) := by
        rw [Bool.eq_iff_iff, decide_eq_true_iff, hcode, ← hsilent, Bool.not_eq_true']
      rw [warning?, shortfall?, h, Option.filter_some, Option.filter_some, hsame]

/-- A condition is reported if it was begun and cannot be used. -/
theorem compile_reports (c : Condition) : c.compile.Reports c.warning?.toList := by
  cases h : c.check with
  | ok comparison =>
      have hnone : c.warning? = none := by simp [warning?, notice?, h]
      rw [hnone, compile, h]
      exact (Compilation.reports_ofExcept _).map some
  | error notice =>
      have hnoted := (Compilation.reports_note notice).bind fun _ =>
        Compilation.reports_pure (none : Option Clause)
      have hwarning : c.warning?.toList = (if notice.isSilent then [] else [notice]) ++ [] := by
        cases hsilent : notice.isSilent <;> simp [warning?, notice?, h, hsilent]
      rw [hwarning, compile, h]
      exact hnoted

end Condition

/-! ## The warnings of a filter -/

/-- Children that report their conditions are reported one after the other. -/
theorem Node.lowerAll_reports {children : List Node}
    (h : ∀ child ∈ children,
      child.lower.Reports (child.conditions.filterMap Condition.warning?)) :
    (lowerAll children).Reports
      (children.flatMap fun child => child.conditions.filterMap Condition.warning?) := by
  induction children with
  | nil =>
      rw [lowerAll]
      exact Compilation.reports_pure []
  | cons child rest ih =>
      rw [List.forall_mem_cons] at h
      rw [lowerAll]
      refine h.1.bind fun first => ?_
      exact (ih h.2).map fun others => first.toList ++ others

/-- A node reports its conditions in the order of its walk. -/
theorem Node.lower_reports (node : Node) :
    node.lower.Reports (node.conditions.filterMap Condition.warning?) := by
  induction node with
  | leaf l =>
      have hwarning : (leaf l).conditions.filterMap Condition.warning? =
          l.condition.warning?.toList := by
        rw [conditions_leaf]
        cases h : l.condition.warning? <;> simp [h]
      rw [hwarning, lower]
      exact l.condition.compile_reports.map _
  | group id relation children ih =>
      rw [conditions_group, List.filterMap_flatMap, lower]
      exact (lowerAll_reports ih).map _

/-- Rows report their conditions from the first to the last. -/
theorem Rows.compileEach_reports (rows : List Row) :
    (compileEach rows).Reports (rows.filterMap fun row => row.warning?) := by
  induction rows with
  | nil =>
      rw [compileEach]
      exact Compilation.reports_pure []
  | cons row rest ih =>
      have hwarning : (row :: rest).filterMap (fun row => row.warning?) =
          row.warning?.toList ++ rest.filterMap fun row => row.warning? := by
        cases h : row.warning? <;> simp [h]
      rw [hwarning, compileEach]
      refine row.toCondition.compile_reports.bind fun clause => ?_
      exact ih.map fun others => (clause.map fun clause => (row, clause)).toList ++ others

/-- A filter reports what every condition that was begun still lacks, in the order of the
conditions. -/
theorem Filter.compile_reports (default : Relation) (filter : Filter) :
    (filter.compile default).Reports (filter.conditions.filterMap Condition.shortfall?) := by
  rw [← funext Condition.warning?_eq_shortfall?]
  match filter with
  | tree none => exact Compilation.reports_pure none
  | tree (some root) => exact root.lower_reports.map _
  | rows rs =>
      rw [conditions, List.filterMap_map]
      exact (Rows.compileEach_reports rs).map fun kept =>
        Rows.joinAll .junction Clause.prepend (kept.map Prod.snd)
          (Rows.relations default (kept.map Prod.fst))

/-- The report of a filter has the query document of the filter, or fails as it does. -/
theorem Filter.report_eq (default : Relation) (filter : Filter) :
    filter.report default =
      (fun document => .success document (filter.conditions.filterMap Condition.shortfall?)) <$>
        filter.document default := by
  rw [report, (filter.compile_reports default).run_eq, document, clause?]
  cases (filter.compile default).value <;> rfl

/-! ## Leaf clauses -/

namespace Value

mutual

/-- The clauses in the document of a clause that join no others, from left to right. -/
def leafClauses : Value → List Value
  | .object [("bool", .object [("must", .list parts)])] => leafClausesAll parts
  | .object [("bool", .object [("should", .list parts), ("minimum_should_match", .int 1)])] =>
      leafClausesAll parts
  | clause => [clause]

/-- The leaf clauses of several documents. -/
def leafClausesAll : List Value → List Value
  | [] => []
  | part :: rest => part.leafClauses ++ leafClausesAll rest

end

/-- The leaf clauses of a query document; one that finds everything has none. -/
def queryLeaves : Value → List Value
  | .object [("query", .object [("match_all", .object [])])] => []
  | .object [("query", clause)] => clause.leafClauses
  | _ => []

/-- The documents are gone through one by one. -/
theorem leafClausesAll_eq_flatMap (parts : List Value) :
    leafClausesAll parts = parts.flatMap leafClauses := by
  induction parts with
  | nil => rfl
  | cons part rest ih => simp [leafClausesAll, ih]

end Value

/-- Joined documents have the leaf clauses of all of them. -/
theorem Relation.leafClauses_document (relation : Relation) (parts : List Value) :
    (relation.document parts).leafClauses = parts.flatMap Value.leafClauses := by
  rw [← Value.leafClausesAll_eq_flatMap]
  cases relation <;> simp [document, Value.single, Value.leafClauses]

/-- The clause of a comparison is a leaf clause. -/
theorem Comparison.leafClauses_of_clause {comparison : Comparison} {clause : Clause}
    (h : comparison.clause = .ok clause) : clause.document.leafClauses = [clause.document] := by
  rw [clause_eq_map_primitive] at h
  rcases Traversal.map_eq_ok_iff.mp h with ⟨p, _, rfl⟩
  cases comparison.operator.negated <;> cases p <;>
    simp [Clause.document, Primitive.document, Value.single, Value.leafClauses]

/-- The leaf clauses of a query are the leaf clauses of its atoms. -/
theorem Formula.leafClauses_clauseOf (formula : Formula Clause) :
    formula.clauseOf.document.leafClauses =
      formula.atoms.flatMap fun clause => clause.document.leafClauses := by
  induction formula with
  | atom clause => simp [atoms]
  | junction relation parts ih =>
      rw [clauseOf_junction, Clause.document, Clause.documents_eq_map,
        Relation.leafClauses_document, atoms_junction, List.flatMap_map, List.flatMap_map,
        List.flatMap_assoc]
      exact List.flatMap_congr ih

/-- The leaf clauses of a query document are those of its clause. -/
theorem queryLeaves_queryDocument (clause : Option Clause) :
    (queryDocument clause).queryLeaves =
      clause.elim [] fun clause => clause.document.leafClauses := by
  cases clause with
  | none => rfl
  | some clause =>
      rw [queryDocument, Option.elim_some]
      cases clause with
      | primitive p =>
          cases p <;> simp [Clause.document, Primitive.document, Value.single, Value.queryLeaves]
      | negation p => simp [Clause.document, Value.single, Value.queryLeaves]
      | junction relation parts =>
          cases relation <;>
            simp [Clause.document, Relation.document, Value.single, Value.queryLeaves]

/-- The leaf clauses of a query document are the clauses of the usable conditions, in the order of
the conditions. -/
theorem Filter.leafClauses_document {default : Relation} {filter : Filter} {document : Value}
    (h : filter.document default = .ok document) :
    ∃ clauses, (filter.conditions.filterMap Condition.comparison?).mapM Comparison.clause =
        .ok clauses ∧ document.queryLeaves = clauses.map Clause.document := by
  rw [Filter.document, clause?_eq] at h
  rcases Traversal.map_eq_ok_iff.mp h with ⟨clause, hclause, rfl⟩
  rcases Traversal.map_eq_ok_iff.mp hclause with ⟨formula, hformula, rfl⟩
  rw [queryLeaves_queryDocument, ← atoms_formula? default]
  cases hsource : filter.formula? default with
  | none =>
      obtain rfl : none = formula := by
        rw [hsource] at hformula
        exact Except.ok.inj hformula
      exact ⟨[], rfl, rfl⟩
  | some source =>
      rw [hsource, Option.mapM_some] at hformula
      rcases Traversal.map_eq_ok_iff.mp hformula with ⟨result, hresult, rfl⟩
      refine ⟨result.atoms, ?_, ?_⟩
      · rw [Option.elim_some, Formula.atoms_traverse, hresult]
        rfl
      · have hleaf : ∀ clause ∈ result.atoms, clause.document.leafClauses = [clause.document] := by
          intro clause hclause
          rcases Formula.exists_mem_atoms_of_traverse hresult hclause with ⟨comparison, _, heq⟩
          exact Comparison.leafClauses_of_clause heq
        rw [Option.map_some, Option.elim_some, Formula.leafClauses_clauseOf,
          List.flatMap_congr hleaf, ← List.map_eq_flatMap]

/-! ## Accounts -/

/-- These leaf clauses and these warnings account for these conditions: from the first condition to
the last, a condition takes the next leaf clause, or the next warning, or neither of them because it
was not begun.  No leaf clause and no warning is left over in the end. -/
inductive Accounts : List Condition → List Value → List Notice → Prop
  | nil : Accounts [] [] []
  | represented {c : Condition} {clause : Clause} {conditions : List Condition}
      {leaves : List Value} {warnings : List Notice} (begun : c.isComplete = true)
      (usable : c.notice? = none) (clause_eq : c.clause? = .ok (some clause))
      (rest : Accounts conditions leaves warnings) :
      Accounts (c :: conditions) (clause.document :: leaves) warnings
  | warned {c : Condition} {notice : Notice} {conditions : List Condition}
      {leaves : List Value} {warnings : List Notice} (begun : c.isComplete = true)
      (noted : c.notice? = some notice)
      (coded : notice.code = "missing_value" ∨ notice.code = "missing_range_bound")
      (rest : Accounts conditions leaves warnings) :
      Accounts (c :: conditions) leaves (notice :: warnings)
  | passedOver {c : Condition} {conditions : List Condition} {leaves : List Value}
      {warnings : List Notice} (notBegun : c.isComplete = false)
      (rest : Accounts conditions leaves warnings) :
      Accounts (c :: conditions) leaves warnings

/-- Leaf clauses, warnings and conditions that were not begun make up all conditions. -/
theorem Accounts.length_eq {conditions : List Condition} {leaves : List Value}
    {warnings : List Notice} (h : Accounts conditions leaves warnings) :
    conditions.length =
      leaves.length + warnings.length + conditions.countP fun c => !c.isComplete := by
  induction h with
  | nil => rfl
  | represented begun _ _ _ ih => simp [begun, ih]; omega
  | warned begun _ _ _ ih => simp [begun, ih]; omega
  | passedOver notBegun _ ih => simp [notBegun, ih]; omega

/-- A condition that can be used was begun. -/
theorem Condition.isComplete_of_comparison? {c : Condition} {comparison : Comparison}
    (h : c.comparison? = some comparison) : c.isComplete = true := by
  obtain ⟨rfl, hready⟩ := ready_of_comparison? h
  simp [isComplete, hready.named, hready.stated]

/-- The clauses of the usable conditions, and what the others lack, account for all conditions. -/
theorem accounts_of_clauses {conditions : List Condition} {clauses : List Clause}
    (h : (conditions.filterMap Condition.comparison?).mapM Comparison.clause = .ok clauses) :
    Accounts conditions (clauses.map Clause.document)
      (conditions.filterMap Condition.shortfall?) := by
  induction conditions generalizing clauses with
  | nil =>
      obtain rfl : [] = clauses := Except.ok.inj h
      exact .nil
  | cons c rest ih =>
      cases hnotice : c.notice? with
      | none =>
          have husable : c.isUsable = true := c.notice?_eq_none_iff.mp hnotice
          obtain ⟨comparison, hcomparison⟩ := Option.isSome_iff_exists.mp husable
          have hshort : c.shortfall? = none := by simp [Condition.shortfall?, hnotice]
          rw [List.filterMap_cons_some hcomparison, List.mapM_cons] at h
          obtain ⟨clause, hclause, h⟩ := Traversal.bind_eq_ok_iff.mp h
          obtain ⟨others, hothers, rfl⟩ := Traversal.map_eq_ok_iff.mp h
          have hown : c.clause? = .ok (some clause) := by
            simp [Condition.clause?, hcomparison, hclause, Except.map]
          rw [List.filterMap_cons_none hshort, List.map_cons]
          exact .represented (Condition.isComplete_of_comparison? hcomparison) hnotice hown
            (ih hothers)
      | some notice =>
          have hcomparison : c.comparison? = none := by
            have hunusable : ¬c.isUsable = true := by simp [← c.notice?_eq_none_iff, hnotice]
            simpa [Condition.isUsable] using hunusable
          obtain ⟨_, hcode⟩ := Condition.begun_iff_of_notice? hnotice
          rw [List.filterMap_cons_none hcomparison] at h
          by_cases hbegun : c.isComplete = true
          · have hshort : c.shortfall? = some notice := by
              simp [Condition.shortfall?, hnotice, hcode.mpr hbegun]
            rw [List.filterMap_cons_some hshort]
            apply Accounts.warned hbegun hnotice
            · simpa [Notice.shortfallCodes] using hcode.mpr hbegun
            · exact ih h
          · have hshort : c.shortfall? = none := by
              simp [Condition.shortfall?, hnotice, hcode, hbegun]
            rw [List.filterMap_cons_none hshort]
            exact .passedOver (by simpa using hbegun) (ih h)

/-- A report accounts for every condition of its filter.  It has the query document of the filter
and a warning for every condition whose notice is about a value or a bound; the leaf clauses of the
document and these warnings account for the conditions one by one. -/
theorem Filter.report_accounts_for_conditions (default : Relation) (filter : Filter) :
    filter.report default =
        (fun document => .success document (filter.conditions.filterMap Condition.shortfall?)) <$>
          filter.document default ∧
      ∀ document, filter.document default = .ok document →
        Accounts filter.conditions document.queryLeaves
          (filter.conditions.filterMap Condition.shortfall?) := by
  refine ⟨filter.report_eq default, fun document hdocument => ?_⟩
  obtain ⟨clauses, hclauses, hleaves⟩ := leafClauses_document hdocument
  rw [hleaves]
  exact accounts_of_clauses hclauses

/-- Of a group in which one condition lacks a value and one has no operator, two leaf clauses and
one warning remain. -/
theorem Filter.report_accounts_for_draft :
    let draft : Filter := .tree (some (.group "g" .and [
      .leaf (.plain
        { id := "a", field := "url", operator := some .wildcard, value := .text "/a*" }),
      .group "h" .or [
        .leaf (.plain { id := "b", field := "verb", operator := some .oneOf }),
        .leaf (.plain { id := "c", field := "host" }),
        .leaf (.plain { id := "d", field := "host", operator := some .absent })]]))
    let document := queryDocument (some (.junction .and [
      .primitive (.wildcard "url" (.text "/a*")), .negation (.present "host")]))
    draft.document .and = .ok document ∧
      Accounts draft.conditions document.queryLeaves [.missingValue "b" "verb" .oneOf] := by
  intro draft document
  have hdocument : draft.document .and = .ok document := rfl
  exact ⟨hdocument, (draft.report_accounts_for_conditions .and).2 document hdocument⟩

end FilterQuery
