import FilterQuery.Proofs.Suggestion

/-!
# How the lookup is called

What a lookup does is its own affair, but how often it is asked, and for what, is decided by the
call for suggestions.  To see it, the lookup is replaced by one that does the same and keeps a
record of its requests.  The record has one request, or none where nothing is wanted, and it shows
whether a context was left out: the warning says so exactly where the request has no context
although one was given.

Main results:

- `wantsValues_iff`: values are wanted for exact fields and operators that take a value.
- `clampSize_eq_self`: a size within the limits is asked for as it is.
- `run_suggest_recorded`: keeping a record does not change what a call comes to.
- `lookup_asked_once`: the record of every call that comes to an outcome.
-/

namespace FilterQuery

/-- The warnings of an outcome, be it a success or a failure. -/
def Outcome.warnings {α : Type} : Outcome α → List Notice
  | success _ warnings => warnings
  | failure _ warnings => warnings

/-- A payload counts as given unless it is missing or the empty text. -/
theorem Input.isUnset_eq_false_iff {raw : Input} :
    raw.isUnset = false ↔ raw ≠ .null ∧ raw ≠ .text "" := by
  cases raw <;> simp [isUnset]

namespace Suggestion

variable {σ Failure : Type} {settings : Settings}
  {lookup : Request → StateM σ (Except Failure (List Value))} {field : String}
  {operator : Option Operator} {term : Option String} {size : Option Int} {context : Input}
  {state left : σ} {outcome : Outcome (List String)}

/-! ## What is wanted -/

/-- Whether an operator takes a value; one that is not chosen yet may. -/
def TakesValue (operator : Option Operator) : Prop :=
  ∀ op, operator = some op → op.need ≠ .nothing

/-- Values are wanted for exact fields and operators that take a value. -/
theorem wantsValues_iff :
    wantsValues field operator = true ↔ Field.isExact field = true ∧ TakesValue operator := by
  have htakes : TakesValue operator ↔ operator ≠ some .present ∧ operator ≠ some .absent := by
    rcases operator with _ | op
    · simp [TakesValue]
    · cases op <;> simp [TakesValue, Operator.need]
  rw [htakes]
  simp [wantsValues, and_assoc]

/-- A size within the limits is asked for as it is. -/
theorem clampSize_eq_self (hlower : 1 ≤ size.getD settings.suggestDefaultSize)
    (hupper : size.getD settings.suggestDefaultSize ≤ settings.suggestLimit) :
    clampSize settings size = size.getD settings.suggestDefaultSize := by
  rw [clampSize, min_eq_left hupper, max_eq_right hlower]

/-- The one warning about the context is there where a context was given and none can be used. -/
theorem exists_contextWarnings_iff {usable : Option Value} :
    (∃ warning ∈ contextWarnings field context usable, warning.code = "context_ignored") ↔
      context ≠ .null ∧ context ≠ .text "" ∧ usable = none := by
  rw [← and_assoc, ← Input.isUnset_eq_false_iff, contextWarnings]
  cases context.isUnset <;> cases usable <;> simp [Notice.code]

/-! ## Records of requests -/

/-- A lookup that also keeps a record of its requests. -/
def recorded (lookup : Request → StateM σ (Except Failure (List Value))) (request : Request) :
    StateM (σ × List Request) (Except Failure (List Value)) := do
  let (state, record) ← get
  let (result, left) := (lookup request).run state
  set (left, record ++ [request])
  return result

/-- A request is answered as before, and put on record. -/
theorem run_recorded (request : Request) (state : σ) (record : List Request) :
    (recorded lookup request).run (state, record) =
      ((lookup request).run state).map id fun left => (left, record ++ [request]) :=
  rfl

variable (settings field operator term size context) in
/-- The requests of a call: one, unless nothing is wanted or the reader stops at the context. -/
def requests : List Request :=
  if wantsValues field operator then
    match Intake.context? context with
    | .error _ => []
    | .ok usable => [request settings field term size usable]
  else []

/-- Keeping a record does not change what a call comes to. -/
theorem run_suggest_recorded (state : σ) (record : List Request) :
    (suggest settings (recorded lookup) field operator term size context).run (state, record) =
      ((suggest settings lookup field operator term size context).run state).map id fun left =>
        (left, record ++ requests settings field operator term size context) := by
  cases hwants : wantsValues field operator with
  | false =>
      rw [suggest_of_not_wants _ _ _ _ _ hwants, suggest_of_not_wants _ _ _ _ _ hwants, requests,
        hwants, if_neg Bool.false_ne_true, List.append_nil]
      rfl
  | true =>
      cases hcontext : Intake.context? context with
      | error limit =>
          rw [suggest_of_wants hwants, suggest_of_wants hwants, requests, hwants, if_pos rfl,
            hcontext, List.append_nil]
          rfl
      | ok usable =>
          rw [run_suggest_of_context? hwants hcontext, run_suggest_of_context? hwants hcontext,
            run_recorded, requests, hwants, if_pos rfl, hcontext]
          rfl

/-! ## The request of a call -/

variable (settings field term size context outcome) in
/-- What a lookup may rely on in a request, and what the outcome says about it. -/
structure Request.IsFor (request : Request) : Prop where
  field_eq : request.field = field
  term_eq : request.term = term
  one_le_size : 1 ≤ request.size
  size_le : request.size ≤ max 1 settings.suggestMaxSize
  size_eq : 1 ≤ size.getD settings.suggestDefaultSize →
    size.getD settings.suggestDefaultSize ≤ max 1 settings.suggestMaxSize →
      request.size = size.getD settings.suggestDefaultSize
  context_eq : request.context = none ∨ ∃ fields query,
    request.context = some (.object fields) ∧ Value.get? "query" fields = some (.object query)
  warned_iff : (∃ warning ∈ outcome.warnings, warning.code = "context_ignored") ↔
    context ≠ .null ∧ context ≠ .text "" ∧ request.context = none

/-- The request of a call that was answered with the warnings about its context. -/
theorem request_isFor {usable : Option Value} (hcontext : Intake.context? context = .ok usable)
    (hwarnings : outcome.warnings = contextWarnings field context usable) :
    (request settings field term size usable).IsFor settings field term size context outcome where
  field_eq := rfl
  term_eq := rfl
  one_le_size := (clampSize_bounds settings size).1
  size_le := (clampSize_bounds settings size).2
  size_eq := clampSize_eq_self
  context_eq := by
    rcases usable with _ | usable
    · exact .inl rfl
    · obtain ⟨fields, query, rfl, hquery⟩ := Intake.shape_of_context? hcontext
      exact .inr ⟨fields, query, rfl, hquery⟩
  warned_iff := by
    rw [hwarnings]
    exact exists_contextWarnings_iff

/-- Where values are wanted, one request is put on record. -/
theorem exists_request (hwants : wantsValues field operator = true)
    (h : Suggests settings lookup field operator term size context state outcome left) :
    ∃ request, requests settings field operator term size context = [request] ∧
      request.IsFor settings field term size context outcome := by
  cases h with
  | idle hnot =>
      rw [hwants] at hnot
      contradiction
  | failed _ hcontext _ =>
      refine ⟨_, ?_, request_isFor hcontext rfl⟩
      rw [requests, if_pos hwants, hcontext]
  | found _ hcontext _ _ =>
      refine ⟨_, ?_, request_isFor hcontext rfl⟩
      rw [requests, if_pos hwants, hcontext]

/-- Where nothing is wanted, nothing is put on record, and nothing is suggested. -/
theorem requests_eq_nil (hwants : wantsValues field operator = false)
    (h : Suggests settings lookup field operator term size context state outcome left) :
    requests settings field operator term size context = [] ∧ outcome = .success [] [] := by
  cases h with
  | idle _ => exact ⟨by rw [requests, hwants, if_neg Bool.false_ne_true], rfl⟩
  | failed h _ _ | found h _ _ _ =>
      rw [hwants] at h
      contradiction

/-- Every call that comes to an outcome asks its lookup at most once.  It asks exactly once where
the field is exact and the operator takes a value: for a size within the limits, which is the one
that was wanted if it can be, and with a context that has a query, or none.  There is a warning
exactly where a context was given and the lookup got none, whether the lookup fails or not.
Anywhere else the lookup is not asked, and nothing is suggested or warned about, whatever context
was given. -/
theorem lookup_asked_once
    (h : (suggest settings lookup field operator term size context).run state =
      (.ok outcome, left)) :
    ∃ record : List Request,
      (suggest settings (recorded lookup) field operator term size context).run (state, []) =
        (.ok outcome, left, record) ∧
      (Field.isExact field = true ∧ TakesValue operator → ∃ request, record = [request] ∧
        request.IsFor settings field term size context outcome) ∧
      (¬(Field.isExact field = true ∧ TakesValue operator) →
        record = [] ∧ outcome = .success [] []) := by
  have hsuggests := run_suggest_eq_ok_iff.mp h
  refine ⟨requests settings field operator term size context, ?_, ?_, ?_⟩
  · rw [run_suggest_recorded, h, List.nil_append]
    rfl
  · rw [← wantsValues_iff]
    intro hwants
    exact exists_request hwants hsuggests
  · rw [← wantsValues_iff, Bool.not_eq_true]
    intro hwants
    exact requests_eq_nil hwants hsuggests

/-- A lookup that fails is asked once, for one value and without the context that breaks off. -/
theorem failing_lookup_asked_once :
    let failing (_ : Request) : StateM Unit (Except String (List Value)) := pure (.error "down")
    ∃ request : Request,
      (suggest {} (recorded failing) "host.keyword" none none (some 0) (.text "[")).run ((), []) =
        (.ok (.failure [.lookupFailed "host.keyword"] [.contextIgnored "host.keyword"]), (),
          [request]) ∧
      request.context = none ∧ 1 ≤ request.size := by
  intro failing
  have hrun : (suggest {} failing "host.keyword" none none (some 0) (.text "[")).run () =
      (.ok (.failure [.lookupFailed "host.keyword"] [.contextIgnored "host.keyword"]), ()) := rfl
  obtain ⟨record, hrecord, hwanted, _⟩ := lookup_asked_once hrun
  obtain ⟨request, rfl, hrequest⟩ := hwanted (wantsValues_iff.mp (by decide))
  have hwarned := hrequest.warned_iff.mp ⟨_, List.mem_singleton_self _, rfl⟩
  exact ⟨request, hrecord, hwarned.2.2, hrequest.one_le_size⟩

end Suggestion

end FilterQuery
